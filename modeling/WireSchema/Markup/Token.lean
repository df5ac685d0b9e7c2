import WireSchema.Text.Basic

namespace WireSchema.Markup

def isBlank (c : Char) : Bool :=
  c == ' ' || c == '\t' || c == '\r' || c == '\n'

def isNameStart (c : Char) : Bool :=
  c.isAlpha || c == '_' || c == ':'

def isNameChar (c : Char) : Bool :=
  c.isAlphanum || c == '_' || c == '-' || c == '.' || c == ':'

inductive Quote where
  | double
  | single
  deriving DecidableEq, Repr

namespace Quote

def char : Quote → Char
  | double => '"'
  | single => '\''

def ofChar? : Char → Option Quote
  | '"' => some double
  | '\'' => some single
  | _ => none

end Quote

/-- An attribute with the blanks before its name and around its equals sign. References in `value`
are not replaced. -/
structure Attribute where
  lead : List Char
  name : List Char
  beforeEquals : List Char
  afterEquals : List Char
  quote : Quote
  value : List Char
  deriving DecidableEq, Repr

structure Tag where
  name : List Char
  attributes : List Attribute
  trail : List Char
  deriving DecidableEq, Repr

/-- A token keeps every character that it was read from, blanks included, so that writing the tokens
of a text out again gives the text. -/
inductive Token where
  | start (tag : Tag)
  | empty (tag : Tag)
  | close (name trail : List Char)
  | comment (body : List Char)
  | instruction (body : List Char)
  | doctype (body : List Char)
  | cdata (body : List Char)
  | text (body : List Char)
  deriving DecidableEq, Repr

namespace Attribute

def render (a : Attribute) : List Char :=
  a.lead ++ a.name ++ a.beforeEquals ++ '=' :: a.afterEquals ++
    a.quote.char :: a.value ++ [a.quote.char]

end Attribute

namespace Tag

def render (t : Tag) : List Char :=
  t.name ++ t.attributes.flatMap Attribute.render ++ t.trail

end Tag

namespace Token

def render : Token → List Char
  | start tag => '<' :: tag.render ++ ['>']
  | empty tag => '<' :: tag.render ++ ['/', '>']
  | close name trail => '<' :: '/' :: name ++ trail ++ ['>']
  | comment body => "<!--".toList ++ body ++ "-->".toList
  | instruction body => "<?".toList ++ body ++ "?>".toList
  | doctype body => "<!DOCTYPE".toList ++ body ++ ">".toList
  | cdata body => "<![CDATA[".toList ++ body ++ "]]>".toList
  | text body => body

def newlines (t : Token) : Nat :=
  t.render.count '\n'

end Token

/-- Splits off what stands before the first `mark`, which is dropped. -/
def splitAtMark? (mark : List Char) : List Char → Option (List Char × List Char)
  | [] => if mark.isEmpty then some ([], []) else none
  | c :: cs =>
    match Text.behind? mark (c :: cs) with
    | some rest => some ([], rest)
    | none => (splitAtMark? mark cs).map fun (body, rest) => (c :: body, rest)

def scanName? : List Char → Option (List Char × List Char)
  | [] => none
  | c :: cs =>
    if isNameStart c then some (c :: cs.takeWhile isNameChar, cs.dropWhile isNameChar) else none

theorem length_dropWhile_le (p : Char → Bool) (cs : List Char) :
    (cs.dropWhile p).length ≤ cs.length :=
  (List.dropWhile_suffix p).length_le

theorem splitAtMark?_length_le {mark cs body rest : List Char}
    (h : splitAtMark? mark cs = some (body, rest)) : rest.length ≤ cs.length := by
  induction cs generalizing body with
  | nil => simp_all [splitAtMark?]
  | cons c cs ih =>
    simp only [splitAtMark?] at h
    split at h
    · next hp => cases h; exact Text.length_le_of_behind? hp
    · obtain ⟨⟨b, r⟩, hr, he⟩ := Option.map_eq_some_iff.1 h
      cases he
      have : r.length ≤ cs.length := ih hr
      show r.length ≤ cs.length + 1
      omega

theorem scanName?_length_lt {cs name rest : List Char} (h : scanName? cs = some (name, rest)) :
    rest.length < cs.length := by
  cases cs with
  | nil => simp [scanName?] at h
  | cons c cs =>
    simp only [scanName?] at h
    split at h
    · cases h
      have := length_dropWhile_le isNameChar cs
      simp only [List.length_cons]; omega
    · simp at h

namespace Attribute

def scanValue? (quote : Quote) (cs : List Char) : Option (List Char × List Char) :=
  let inside (c : Char) : Bool := c != quote.char && c != '<'
  match cs.dropWhile inside with
  | c :: rest => if c = quote.char then some (cs.takeWhile inside, rest) else none
  | [] => none

theorem scanValue?_length_lt {quote : Quote} {cs value rest : List Char}
    (h : scanValue? quote cs = some (value, rest)) : rest.length < cs.length := by
  simp only [scanValue?] at h
  split at h
  · next hd =>
    split at h
    · cases h
      have := length_dropWhile_le (fun c => c != quote.char && c != '<') cs
      rw [hd] at this
      simp only [List.length_cons] at this; omega
    · simp at h
  · simp at h

def scan? (cs : List Char) : Option (Attribute × List Char) :=
  let lead := cs.takeWhile isBlank
  if lead.isEmpty then none
  else
    match scanName? (cs.dropWhile isBlank) with
    | none => none
    | some (name, cs) =>
      let beforeEquals := cs.takeWhile isBlank
      match cs.dropWhile isBlank with
      | '=' :: cs =>
        let afterEquals := cs.takeWhile isBlank
        match cs.dropWhile isBlank with
        | [] => none
        | q :: cs =>
          match Quote.ofChar? q with
          | none => none
          | some quote =>
            (scanValue? quote cs).map fun (value, cs) =>
              (⟨lead, name, beforeEquals, afterEquals, quote, value⟩, cs)
      | _ => none

theorem scan?_length_lt {cs rest : List Char} {a : Attribute} (h : scan? cs = some (a, rest)) :
    rest.length < cs.length := by
  simp only [scan?] at h
  split at h
  · simp at h
  split at h
  · simp at h
  next name r₁ hn =>
  split at h
  · next r₂ he =>
    split at h
    · simp at h
    next q r₃ hq =>
    split at h
    · simp at h
    next quote _ =>
    obtain ⟨⟨value, r₄⟩, hv, hr⟩ := Option.map_eq_some_iff.1 h
    cases hr
    have h₁ := length_dropWhile_le isBlank cs
    have h₂ := scanName?_length_lt hn
    have h₃ := length_dropWhile_le isBlank r₁
    have h₄ := length_dropWhile_le isBlank r₂
    have h₅ := scanValue?_length_lt hv
    rw [he] at h₃
    rw [hq] at h₄
    simp only [List.length_cons] at h₃ h₄
    show r₄.length < cs.length
    omega
  · simp at h

end Attribute

def scanAttributes (cs : List Char) : List Attribute × List Char :=
  match _found : Attribute.scan? cs with
  | none => ([], cs)
  | some (a, rest) =>
    let (attributes, rest) := scanAttributes rest
    (a :: attributes, rest)
termination_by cs.length
decreasing_by exact Attribute.scan?_length_lt _found

theorem scanAttributes_length_le (cs : List Char) :
    (scanAttributes cs).2.length ≤ cs.length := by
  fun_induction scanAttributes cs with
  | case1 => simp
  | case2 cs a rest hs attributes rest' he ih =>
    have := Attribute.scan?_length_lt hs
    simp only [he] at ih
    simp only
    omega

def scanTag? (cs : List Char) : Option (Token × List Char) :=
  match scanName? cs with
  | none => none
  | some (name, cs) =>
    let (attributes, cs) := scanAttributes cs
    let tag : Tag := ⟨name, attributes, cs.takeWhile isBlank⟩
    match cs.dropWhile isBlank with
    | '>' :: rest => some (.start tag, rest)
    | '/' :: '>' :: rest => some (.empty tag, rest)
    | _ => none

def scanClose? (cs : List Char) : Option (Token × List Char) :=
  match scanName? cs with
  | none => none
  | some (name, cs) =>
    match cs.dropWhile isBlank with
    | '>' :: rest => some (.close name (cs.takeWhile isBlank), rest)
    | _ => none

def scanDeclaration? (cs : List Char) : Option (Token × List Char) :=
  match Text.behind? "--".toList cs with
  | some cs => (splitAtMark? "-->".toList cs).map fun (body, rest) => (.comment body, rest)
  | none =>
    match Text.behind? "[CDATA[".toList cs with
    | some cs => (splitAtMark? "]]>".toList cs).map fun (body, rest) => (.cdata body, rest)
    | none =>
      match Text.behind? "DOCTYPE".toList cs with
      | some cs => (splitAtMark? ">".toList cs).map fun (body, rest) => (.doctype body, rest)
      | none => none

def scanToken? (cs : List Char) : Option (Token × List Char) :=
  match cs with
  | [] => none
  | '<' :: '/' :: cs => scanClose? cs
  | '<' :: '!' :: cs => scanDeclaration? cs
  | '<' :: '?' :: cs =>
    (splitAtMark? "?>".toList cs).map fun (body, rest) => (.instruction body, rest)
  | '<' :: cs => scanTag? cs
  | c :: cs => some (.text (c :: cs.takeWhile (· != '<')), cs.dropWhile (· != '<'))

theorem scanTag?_length_lt {cs rest : List Char} {t : Token} (h : scanTag? cs = some (t, rest)) :
    rest.length < cs.length := by
  simp only [scanTag?] at h
  split at h
  · simp at h
  next name r₁ hn =>
  have h₁ := scanName?_length_lt hn
  have h₂ := scanAttributes_length_le r₁
  have h₃ := length_dropWhile_le isBlank (scanAttributes r₁).2
  split at h
  · next r₂ he =>
    cases h
    rw [he] at h₃
    simp only [List.length_cons] at h₃; omega
  · next r₂ he =>
    cases h
    rw [he] at h₃
    simp only [List.length_cons] at h₃; omega
  · simp at h

theorem scanClose?_length_lt {cs rest : List Char} {t : Token}
    (h : scanClose? cs = some (t, rest)) : rest.length < cs.length := by
  simp only [scanClose?] at h
  split at h
  · simp at h
  next name r₁ hn =>
  have h₁ := scanName?_length_lt hn
  have h₂ := length_dropWhile_le isBlank r₁
  split at h
  · next r₂ he =>
    cases h
    rw [he] at h₂
    simp only [List.length_cons] at h₂; omega
  · simp at h

theorem scanDeclaration?_length_le {cs rest : List Char} {t : Token}
    (h : scanDeclaration? cs = some (t, rest)) : rest.length ≤ cs.length := by
  have split_le {mark r : List Char} {f : List Char → Token} (hp : r.length ≤ cs.length)
      (h : (splitAtMark? mark r).map (fun (body, rest) => (f body, rest)) = some (t, rest)) :
      rest.length ≤ cs.length := by
    obtain ⟨⟨body, r'⟩, hs, he⟩ := Option.map_eq_some_iff.1 h
    cases he
    exact Nat.le_trans (splitAtMark?_length_le hs) hp
  simp only [scanDeclaration?] at h
  split at h
  · next hp => exact split_le (Text.length_le_of_behind? hp) h
  split at h
  · next hp => exact split_le (Text.length_le_of_behind? hp) h
  split at h
  · next hp => exact split_le (Text.length_le_of_behind? hp) h
  · simp at h

theorem scanToken?_length_lt {cs rest : List Char} {t : Token}
    (h : scanToken? cs = some (t, rest)) : rest.length < cs.length := by
  simp only [scanToken?] at h
  split at h
  · simp at h
  · have := scanClose?_length_lt h
    simp only [List.length_cons]; omega
  · have := scanDeclaration?_length_le h
    simp only [List.length_cons]; omega
  · obtain ⟨⟨body, r⟩, hs, he⟩ := Option.map_eq_some_iff.1 h
    cases he
    have := splitAtMark?_length_le hs
    simp only [List.length_cons]; omega
  · have := scanTag?_length_lt h
    simp only [List.length_cons]; omega
  · next c cs _ _ _ _ =>
    cases h
    have := length_dropWhile_le (· != '<') cs
    simp only [List.length_cons]; omega

def tokens? (cs : List Char) : Option (List Token) :=
  if cs.isEmpty then some []
  else
    match _found : scanToken? cs with
    | none => none
    | some (t, rest) => (tokens? rest).map (t :: ·)
termination_by cs.length
decreasing_by exact scanToken?_length_lt _found

end WireSchema.Markup
