import Mathlib.Data.List.TakeWhile
import WireSchema.Proofs.Markup.Writing

namespace WireSchema.Markup

section Characters

variable {p : Char → Bool} {cs rest : List Char}

def Stops (p : Char → Bool) (cs : List Char) : Prop :=
  ∀ c ∈ cs.head?, p c = false

theorem stops_cons {c : Char} (h : p c = false) : Stops p (c :: cs) := by
  simpa [Stops] using h

theorem Stops.append (hcs : ∀ c ∈ cs, p c = false) (h : Stops p rest) : Stops p (cs ++ rest) := by
  cases cs with
  | nil => exact h
  | cons c cs => exact stops_cons (hcs c List.mem_cons_self)

theorem takeWhile_of_stops (hcs : ∀ c ∈ cs, p c = true) (h : Stops p rest) :
    (cs ++ rest).takeWhile p = cs := by
  rw [List.takeWhile_append_of_pos hcs]
  cases rest with
  | nil => simp
  | cons c rest => simp [h c rfl]

theorem dropWhile_of_stops (hcs : ∀ c ∈ cs, p c = true) (h : Stops p rest) :
    (cs ++ rest).dropWhile p = rest := by
  rw [List.dropWhile_append_of_pos hcs]
  cases rest with
  | nil => rfl
  | cons c rest => simp [h c rfl]

theorem isBlank_eq_true {c : Char} :
    isBlank c = true ↔ c = ' ' ∨ c = '\t' ∨ c = '\r' ∨ c = '\n' := by
  simp [isBlank, or_assoc]

theorem isNameChar_of_isBlank {c : Char} (h : isBlank c = true) : isNameChar c = false := by
  rcases isBlank_eq_true.1 h with rfl | rfl | rfl | rfl <;> decide

theorem ne_less_of_isBlank {c : Char} (h : isBlank c = true) : c ≠ '<' := by
  rcases isBlank_eq_true.1 h with rfl | rfl | rfl | rfl <;> decide

theorem isBlank_of_isNameStart {c : Char} (h : isNameStart c = true) : isBlank c = false := by
  by_contra hblank
  rw [Bool.not_eq_false, isBlank_eq_true] at hblank
  rcases hblank with rfl | rfl | rfl | rfl <;> exact absurd h (by decide)

theorem IsName.exists_cons (h : IsName cs) :
    ∃ c ds, cs = c :: ds ∧ isNameStart c = true ∧ ∀ d ∈ ds, isNameChar d = true := by
  cases cs with
  | nil => cases h
  | cons c ds => exact ⟨c, ds, rfl, h⟩

theorem IsName.stops (h : IsName cs) : Stops isBlank (cs ++ rest) := by
  obtain ⟨c, ds, rfl, hc, -⟩ := h.exists_cons
  exact stops_cons (isBlank_of_isNameStart hc)

theorem IsBlanks.stops (h : IsBlanks cs) (hrest : Stops isNameChar rest) :
    Stops isNameChar (cs ++ rest) :=
  hrest.append fun c hc => isNameChar_of_isBlank (h c hc)

theorem scanName?_append (h : IsName cs) (hrest : Stops isNameChar rest) :
    scanName? (cs ++ rest) = some (cs, rest) := by
  obtain ⟨c, ds, rfl, hc, hds⟩ := h.exists_cons
  rw [List.cons_append, scanName?, if_pos hc, takeWhile_of_stops hds hrest,
    dropWhile_of_stops hds hrest]

end Characters

section Marks

variable {mark body rest : List Char}

/-- No end of the mark is its start as well, so two marks do not overlap. -/
def Unbordered (mark : List Char) : Prop :=
  ∀ n < mark.length, 0 < n → ¬mark.drop n <+: mark

instance (mark : List Char) : Decidable (Unbordered mark) :=
  inferInstanceAs (Decidable (∀ n < mark.length, 0 < n → ¬mark.drop n <+: mark))

theorem not_prefix_append (hmark : Unbordered mark) (hbody : body ≠ []) (hin : ¬mark <:+: body)
    (rest : List Char) : ¬mark <+: body ++ (mark ++ rest) := by
  intro h
  rcases List.prefix_or_prefix_of_prefix h (List.prefix_append body _) with hle | hle
  · exact hin hle.isInfix
  · -- The mark is the body and something that the second mark begins with.
    obtain ⟨tail, rfl⟩ := hle
    have htail : tail <+: body ++ tail := by
      have htail := (List.prefix_append_right_inj body).1 h
      exact List.prefix_of_prefix_length_le htail (List.prefix_append _ rest) (by simp)
    have hpos := List.length_pos_iff.2 hbody
    cases tail with
    | nil => exact hin (by simp)
    | cons c tail =>
        refine hmark body.length (by simp) hpos ?_
        rwa [List.drop_left]

theorem splitAtMark?_append (hne : mark ≠ []) (hmark : Unbordered mark) (hin : ¬mark <:+: body) :
    splitAtMark? mark (body ++ (mark ++ rest)) = some (body, rest) := by
  induction body with
  | nil =>
      obtain ⟨m, ms, rfl⟩ := List.exists_cons_of_ne_nil hne
      have hbehind : Text.behind? (m :: ms) (m :: ms ++ rest) = some rest :=
        Text.behind?_eq_some_iff.2 rfl
      rw [List.nil_append, List.cons_append, splitAtMark?]
      simp only [← List.cons_append, hbehind]
  | cons c body ih =>
      have hbehind : Text.behind? mark (c :: body ++ (mark ++ rest)) = none := by
        by_contra hsome
        obtain ⟨found, hfound⟩ := Option.ne_none_iff_exists'.1 hsome
        refine not_prefix_append hmark (List.cons_ne_nil c body) hin rest ?_
        rw [Text.behind?_eq_some_iff.1 hfound]
        exact List.prefix_append _ _
      have hrest := ih fun h => hin (h.trans (List.suffix_cons c body).isInfix)
      rw [List.cons_append, splitAtMark?]
      simp only [← List.cons_append, hbehind, hrest, Option.map_some]

end Marks

section Attributes

variable {quote : Quote} {value raw rest : List Char}

theorem Escapes.inside (h : Escapes quote value raw) :
    ∀ c ∈ raw, (c != quote.char && c != '<') = true := by
  have hend (c : Char) : (c != quote.char && c != '<') = true ↔ ¬(c = '<' ∨ c = quote.char) := by
    simp [and_comm]
  simp only [hend]
  induction h with
  | nil => simp
  | plain amp less inside _ ih => simpa [less, inside] using ih
  | reference refers _ ih =>
      intro d hd hbad
      rcases List.mem_cons.1 hd with rfl | hd
      · revert hbad
        cases quote <;> decide
      rcases List.mem_append.1 hd with hd | hd
      · have hend : d = ';' ∨ d = '<' ∨ d = '"' ∨ d = '\'' := by
          cases quote <;> rcases hbad with rfl | rfl <;> decide
        exact refers.notMem hend hd
      rcases List.mem_cons.1 hd with rfl | hd
      · revert hbad
        cases quote <;> decide
      · exact ih d hd hbad

/-- An attribute that ends where it says. References in its value need not be right. -/
structure Attribute.IsClosed (a : Attribute) : Prop where
  lead : a.lead ≠ []
  blank : IsBlanks a.lead ∧ IsBlanks a.beforeEquals ∧ IsBlanks a.afterEquals
  isName : IsName a.name
  inside : ∀ c ∈ a.value, (c != a.quote.char && c != '<') = true

structure Tag.IsClosed (tag : Tag) : Prop where
  isName : IsName tag.name
  attributes : ∀ a ∈ tag.attributes, a.IsClosed
  trail : IsBlanks tag.trail

theorem Attribute.Writes.isClosed {a : Attribute} {name value : String} (h : a.Writes name value) :
    a.IsClosed :=
  ⟨h.lead, h.blank, h.isName, h.escapes.inside⟩

theorem Tag.Writes.isClosed {tag : Tag} {name : String} {attributes : List (String × String)}
    (h : tag.Writes name attributes) : tag.IsClosed := by
  refine ⟨h.isName, ?_, h.trail⟩
  intro a ha
  obtain ⟨e, -, hwrites⟩ := Outcome.exists_right_of_mem h.written ha
  exact hwrites.isClosed

theorem scanValue?_append (h : ∀ c ∈ raw, (c != quote.char && c != '<') = true) :
    Attribute.scanValue? quote (raw ++ quote.char :: rest) = some (raw, rest) := by
  have hstops : Stops (fun c => c != quote.char && c != '<') (quote.char :: rest) :=
    stops_cons (by simp)
  simp only [Attribute.scanValue?, takeWhile_of_stops h hstops, dropWhile_of_stops h hstops, if_true]

theorem stops_quote (quote : Quote) : Stops isBlank (quote.char :: rest) :=
  stops_cons (by cases quote <;> decide)

theorem ofChar?_char (quote : Quote) : Quote.ofChar? quote.char = some quote := by
  cases quote <;> rfl

variable {a : Attribute} {as : List Attribute}

theorem scan?_render (h : a.IsClosed) :
    Attribute.scan? (a.render ++ rest) = some (a, rest) := by
  obtain ⟨hlead, hbefore, hafter⟩ := h.blank
  have hrender : a.render ++ rest = a.lead ++ (a.name ++ (a.beforeEquals ++ '=' ::
      (a.afterEquals ++ a.quote.char :: (a.value ++ a.quote.char :: rest)))) := by
    simp [Attribute.render]
  have hstops {p : Char → Bool} (hp : p '=' = false) : Stops p ('=' :: (a.afterEquals ++
      a.quote.char :: (a.value ++ a.quote.char :: rest))) := stops_cons hp
  have hname := scanName?_append h.isName (hbefore.stops (hstops (by decide)))
  have hequals := hstops (p := isBlank) (by decide)
  simp only [Attribute.scan?, hrender, takeWhile_of_stops hlead h.isName.stops,
    dropWhile_of_stops hlead h.isName.stops, hname, takeWhile_of_stops hbefore hequals,
    dropWhile_of_stops hbefore hequals, takeWhile_of_stops hafter (stops_quote a.quote),
    dropWhile_of_stops hafter (stops_quote a.quote), ofChar?_char, scanValue?_append h.inside]
  rw [if_neg (by simpa using h.lead)]
  rfl

theorem scan?_eq_none {trail : List Char} (htrail : IsBlanks trail) {c : Char}
    (hblank : isBlank c = false) (hc : isNameStart c = false) :
    Attribute.scan? (trail ++ c :: rest) = none := by
  have hname : scanName? (c :: rest) = none := by simp [scanName?, hc]
  simp only [Attribute.scan?, dropWhile_of_stops htrail (stops_cons hblank), hname]
  split <;> rfl

theorem scanAttributes_append (h : ∀ a ∈ as, a.IsClosed) (hrest : Attribute.scan? rest = none) :
    scanAttributes (as.flatMap Attribute.render ++ rest) = (as, rest) := by
  induction as with
  | nil =>
      rw [List.flatMap_nil, List.nil_append, scanAttributes]
      split
      next => rfl
      next hsome => simp [hrest] at hsome
  | cons a as ih =>
      obtain ⟨ha, has⟩ := List.forall_mem_cons.1 h
      rw [List.flatMap_cons, List.append_assoc, scanAttributes]
      split
      next hnone => simp [scan?_render ha] at hnone
      next hsome =>
        rw [scan?_render ha] at hsome
        cases hsome
        rw [ih has]

theorem stops_attributes (h : ∀ a ∈ as, a.IsClosed) (hrest : Stops isNameChar rest) :
    Stops isNameChar (as.flatMap Attribute.render ++ rest) := by
  cases as with
  | nil => exact hrest
  | cons a as =>
      have ha := h a List.mem_cons_self
      obtain ⟨b, bs, hlead⟩ := List.exists_cons_of_ne_nil ha.lead
      have hb : isBlank b = true := ha.blank.1 b (by simp [hlead])
      simp only [List.flatMap_cons, Attribute.render, hlead, List.cons_append]
      exact stops_cons (isNameChar_of_isBlank hb)

end Attributes

section Tokens

variable {rest : List Char} {tag : Tag}

theorem scanTag?_parts (h : tag.IsClosed) (rest : List Char) {c : Char}
    (hblank : isBlank c = false) (hname : isNameChar c = false) (hstart : isNameStart c = false) :
    scanName? (tag.render ++ c :: rest) =
        some (tag.name, tag.attributes.flatMap Attribute.render ++ (tag.trail ++ c :: rest)) ∧
      scanAttributes (tag.attributes.flatMap Attribute.render ++ (tag.trail ++ c :: rest)) =
        (tag.attributes, tag.trail ++ c :: rest) ∧
      (tag.trail ++ c :: rest).takeWhile isBlank = tag.trail ∧
      (tag.trail ++ c :: rest).dropWhile isBlank = c :: rest := by
  have hrender : tag.render ++ c :: rest = tag.name ++
      (tag.attributes.flatMap Attribute.render ++ (tag.trail ++ c :: rest)) := by simp [Tag.render]
  refine ⟨?_, scanAttributes_append h.attributes (scan?_eq_none h.trail hblank hstart),
    takeWhile_of_stops h.trail (stops_cons hblank), dropWhile_of_stops h.trail (stops_cons hblank)⟩
  rw [hrender]
  exact scanName?_append h.isName (stops_attributes h.attributes (h.trail.stops (stops_cons hname)))

theorem scanTag?_start (h : tag.IsClosed) :
    scanTag? (tag.render ++ '>' :: rest) = some (.start tag, rest) := by
  obtain ⟨hname, hattributes, htake, hdrop⟩ := scanTag?_parts h rest (c := '>') (by decide)
    (by decide) (by decide)
  simp only [scanTag?, hname, hattributes, htake, hdrop]

theorem scanTag?_empty (h : tag.IsClosed) :
    scanTag? (tag.render ++ '/' :: '>' :: rest) = some (.empty tag, rest) := by
  obtain ⟨hname, hattributes, htake, hdrop⟩ := scanTag?_parts h ('>' :: rest) (c := '/') (by decide)
    (by decide) (by decide)
  simp only [scanTag?, hname, hattributes, htake, hdrop]

theorem scanToken?_tag (h : tag.IsClosed) :
    scanToken? ('<' :: (tag.render ++ rest)) = scanTag? (tag.render ++ rest) := by
  obtain ⟨c, cs, hcs, hc, -⟩ := h.isName.exists_cons
  have hrender : tag.render ++ rest =
      c :: (cs ++ tag.attributes.flatMap Attribute.render ++ tag.trail ++ rest) := by
    simp [Tag.render, hcs]
  have hne : c ≠ '/' ∧ c ≠ '!' ∧ c ≠ '?' := by
    refine ⟨?_, ?_, ?_⟩ <;> rintro rfl <;> exact absurd hc (by decide)
  rw [hrender]
  simp [scanToken?, hne.1, hne.2.1, hne.2.2]

theorem scanClose?_append {name trail : List Char} (hname : IsName name) (htrail : IsBlanks trail) :
    scanClose? (name ++ (trail ++ '>' :: rest)) = some (.close name trail, rest) := by
  have hstops : Stops isBlank ('>' :: rest) := stops_cons (by decide)
  have hscan : scanName? (name ++ (trail ++ '>' :: rest)) = some (name, trail ++ '>' :: rest) :=
    scanName?_append hname (htrail.stops (stops_cons (by decide)))
  simp only [scanClose?, hscan, takeWhile_of_stops htrail hstops, dropWhile_of_stops htrail hstops]

theorem scanDeclaration?_comment {body : List Char} (h : ¬"-->".toList <:+: body) :
    scanDeclaration? ("--".toList ++ (body ++ ("-->".toList ++ rest))) =
      some (.comment body, rest) := by
  have hopen :=
    Text.behind?_eq_some_iff.2 (Eq.refl ("--".toList ++ (body ++ ("-->".toList ++ rest))))
  rw [scanDeclaration?, hopen]
  simp only [splitAtMark?_append (by decide) (by decide) h, Option.map_some]

theorem scanDeclaration?_cdata {body : List Char} (h : ¬"]]>".toList <:+: body) :
    scanDeclaration? ("[CDATA[".toList ++ (body ++ ("]]>".toList ++ rest))) =
      some (.cdata body, rest) := by
  have hopen :=
    Text.behind?_eq_some_iff.2 (Eq.refl ("[CDATA[".toList ++ (body ++ ("]]>".toList ++ rest))))
  have hcomment : Text.behind? "--".toList ("[CDATA[".toList ++ (body ++ ("]]>".toList ++ rest))) =
      none := rfl
  rw [scanDeclaration?, hcomment, hopen]
  simp only [splitAtMark?_append (by decide) (by decide) h, Option.map_some]

theorem scanDeclaration?_doctype {body : List Char} (h : '>' ∉ body) :
    scanDeclaration? ("DOCTYPE".toList ++ (body ++ (">".toList ++ rest))) =
      some (.doctype body, rest) := by
  have hin : ¬">".toList <:+: body := fun hin => h (hin.subset (by decide))
  have hopen :=
    Text.behind?_eq_some_iff.2 (Eq.refl ("DOCTYPE".toList ++ (body ++ (">".toList ++ rest))))
  have hcomment : Text.behind? "--".toList ("DOCTYPE".toList ++ (body ++ (">".toList ++ rest))) =
      none := rfl
  have hcdata : Text.behind? "[CDATA[".toList ("DOCTYPE".toList ++ (body ++ (">".toList ++ rest))) =
      none := rfl
  rw [scanDeclaration?, hcomment, hcdata, hopen]
  simp only [splitAtMark?_append (by decide) (by decide) hin, Option.map_some]

/-- A token that ends where it says, whatever stands behind it. -/
def Token.IsClosed : Token → Prop
  | start tag | empty tag => tag.IsClosed
  | close name trail => IsName name ∧ IsBlanks trail
  | comment body => ¬"-->".toList <:+: body
  | instruction body => ¬"?>".toList <:+: body
  | doctype body => '>' ∉ body
  | cdata body => ¬"]]>".toList <:+: body
  | text _ => False

theorem scanToken?_render {t : Token} (h : t.IsClosed) (rest : List Char) :
    scanToken? (t.render ++ rest) = some (t, rest) := by
  cases t with
  | start tag =>
      change scanToken? ('<' :: tag.render ++ ['>'] ++ rest) = _
      rw [List.cons_append, List.cons_append, List.append_assoc, scanToken?_tag h]
      exact scanTag?_start h
  | empty tag =>
      change scanToken? ('<' :: tag.render ++ ['/', '>'] ++ rest) = _
      rw [List.cons_append, List.cons_append, List.append_assoc, scanToken?_tag h]
      exact scanTag?_empty h
  | close name trail =>
      change scanClose? (name ++ trail ++ ['>'] ++ rest) = _
      simpa using scanClose?_append h.1 h.2
  | comment body =>
      change scanDeclaration? ("--".toList ++ body ++ "-->".toList ++ rest) = _
      simpa only [List.append_assoc] using scanDeclaration?_comment h
  | instruction body =>
      change (splitAtMark? "?>".toList (body ++ "?>".toList ++ rest)).map _ = _
      rw [List.append_assoc, splitAtMark?_append (by decide) (by decide) h]
      rfl
  | doctype body =>
      change scanDeclaration? ("DOCTYPE".toList ++ body ++ ">".toList ++ rest) = _
      simpa only [List.append_assoc] using scanDeclaration?_doctype h
  | cdata body =>
      change scanDeclaration? ("[CDATA[".toList ++ body ++ "]]>".toList ++ rest) = _
      simpa only [List.append_assoc] using scanDeclaration?_cdata h
  | text body => cases h

theorem tokens?_of_scan {cs : List Char} {t : Token} (h : scanToken? cs = some (t, rest)) :
    tokens? cs = (tokens? rest).map (t :: ·) := by
  rw [tokens?, if_neg]
  · split
    next hnone => simp [h] at hnone
    next hsome =>
      rw [h] at hsome
      cases hsome
      rfl
  · intro hnil
    rw [List.isEmpty_iff.1 hnil] at h
    cases h

theorem tokens?_render {t : Token} (h : t.IsClosed) (rest : List Char) :
    tokens? (t.render ++ rest) = (tokens? rest).map (t :: ·) :=
  tokens?_of_scan (scanToken?_render h rest)

def joinText (c : Char) : List Token → List Token
  | .text body :: ts => .text (c :: body) :: ts
  | ts => .text [c] :: ts

theorem joinText_of_ne {t : Token} (h : ∀ body, t ≠ .text body) (c : Char) (ts : List Token) :
    joinText c (t :: ts) = .text [c] :: t :: ts := by
  cases t with
  | text body => exact absurd rfl (h body)
  | start | empty | close | comment | instruction | doctype | cdata => rfl

theorem ne_text_of_scanToken? {cs : List Char} {t : Token}
    (h : scanToken? ('<' :: cs) = some (t, rest)) (body : List Char) : t ≠ .text body := by
  rintro rfl
  rw [scanToken?.eq_def] at h
  split at h
  next => cases h
  next =>
    rw [scanClose?] at h
    grind
  next =>
    simp only [scanDeclaration?] at h
    grind [Option.map_eq_some_iff]
  next => grind [Option.map_eq_some_iff]
  next =>
    simp only [scanTag?] at h
    grind
  next hne heq =>
    cases heq
    exact absurd rfl hne

theorem tokens?_nil : tokens? [] = some [] := by
  rw [tokens?]
  rfl

theorem tokens?_eq_none {cs : List Char} (hne : cs ≠ []) (h : scanToken? cs = none) :
    tokens? cs = none := by
  rw [tokens?, if_neg (by simpa using hne)]
  split
  next => rfl
  next hsome => simp [h] at hsome

theorem scanToken?_text {c : Char} (hc : c ≠ '<') (cs : List Char) : scanToken? (c :: cs) =
    some (.text (c :: cs.takeWhile (· != '<')), cs.dropWhile (· != '<')) := by
  rw [scanToken?]
  all_goals simp [hc]

theorem tokens?_cons {c : Char} (hc : c ≠ '<') (cs : List Char) :
    tokens? (c :: cs) = (tokens? cs).map (joinText c) := by
  rw [tokens?_of_scan (scanToken?_text hc cs)]
  cases cs with
  | nil => simp [tokens?_nil, joinText]
  | cons d ds =>
      by_cases hd : d = '<'
      · subst hd
        simp only [List.takeWhile_cons, List.dropWhile_cons, bne_self_eq_false, Bool.false_eq_true,
          if_false]
        cases hfirst : scanToken? ('<' :: ds) with
        | none => rw [tokens?_eq_none (List.cons_ne_nil _ _) hfirst, Option.map_none, Option.map_none]
        | some x =>
            rw [tokens?_of_scan hfirst, Option.map_map, Option.map_map]
            congr 1
            funext ts
            exact (joinText_of_ne (ne_text_of_scanToken? hfirst) c ts).symm
      · rw [tokens?_of_scan (scanToken?_text hd ds), Option.map_map]
        simp only [List.takeWhile_cons, List.dropWhile_cons, bne_iff_ne.2 hd, if_true]
        rfl

end Tokens

end WireSchema.Markup
