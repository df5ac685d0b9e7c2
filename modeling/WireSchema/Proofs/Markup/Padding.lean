import Mathlib.Data.Option.Basic
import WireSchema.Proofs.Markup.Recovery
import WireSchema.Proofs.Markup.Tokens
import WireSchema.Proofs.Text.Blank

namespace WireSchema.Markup

open Outcome

/-- Which values may have more blanks around them in one document than in another. -/
structure Padding where
  /-- whether an attribute may have them, given the number of elements around its own one, the name
  of its element and its name -/
  allows : Nat → String → String → Prop
  breaks : Prop

namespace Padding

variable (p : Padding)

def SameLine (line line' : Nat) : Prop :=
  p.breaks ∨ line' = line

def Surrounds (cs cs' : List Char) : Prop :=
  ∃ front back, cs' = front ++ cs ++ back ∧
    ∀ c ∈ front ++ back, Text.isBlank c = true ∧ (c = '\n' → p.breaks)

end Padding

variable {p : Padding}

structure Attribute.Padded (p : Padding) (depth : Nat) (element : List Char) (a a' : Attribute) :
    Prop where
  same : a' = { a with value := a'.value }
  value : a'.value = a.value ∨
    p.allows depth (String.ofList element) (String.ofList a.name) ∧ p.Surrounds a.value a'.value

structure Tag.Padded (p : Padding) (depth : Nat) (tag tag' : Tag) : Prop where
  name : tag'.name = tag.name
  trail : tag'.trail = tag.trail
  attributes : List.Forall₂ (Attribute.Padded p depth tag.name) tag.attributes tag'.attributes

def Token.IsBetween : Token → Prop
  | start _ | empty _ | close _ _ => False
  | comment _ | instruction _ | doctype _ | cdata _ | text _ => True

/-- Tokens inside a number of open elements, which differ in blanks that are allowed there. -/
inductive PaddedTokens (p : Padding) : Nat → List Token → List Token → Prop
  | nil {depth : Nat} : PaddedTokens p depth [] []
  | start {depth : Nat} {tag tag' : Tag} {ts ts' : List Token} (padded : tag.Padded p depth tag')
      (behind : PaddedTokens p (depth + 1) ts ts') :
      PaddedTokens p depth (.start tag :: ts) (.start tag' :: ts')
  | empty {depth : Nat} {tag tag' : Tag} {ts ts' : List Token} (padded : tag.Padded p depth tag')
      (behind : PaddedTokens p depth ts ts') :
      PaddedTokens p depth (.empty tag :: ts) (.empty tag' :: ts')
  | close {depth : Nat} {name trail : List Char} {ts ts' : List Token}
      (behind : PaddedTokens p (depth - 1) ts ts') :
      PaddedTokens p depth (.close name trail :: ts) (.close name trail :: ts')
  | between {depth : Nat} {t : Token} {ts ts' : List Token} (isBetween : t.IsBetween)
      (behind : PaddedTokens p depth ts ts') : PaddedTokens p depth (t :: ts) (t :: ts')

def Padded (p : Padding) (source source' : String) : Prop :=
  ∃ ts ts', tokens? source.toList = some ts ∧ PaddedTokens p 0 ts ts' ∧
    source' = String.ofList (ts'.flatMap Token.render)

section Texts

variable {depth : Nat} {element cs cs' : List Char} {a a' : Attribute} {tag tag' : Tag}

theorem ne_of_isBlank {c d : Char} (hc : Text.isBlank c = true) (hd : Text.isBlank d = false) :
    c ≠ d := by
  rintro rfl
  rw [hc] at hd
  cases hd

theorem Attribute.Padded.isClosed (h : a.Padded p depth element a') (ha : a.IsClosed) :
    a'.IsClosed := by
  have hsame := h.same
  rw [hsame]
  refine ⟨ha.lead, ha.blank, ha.isName, ?_⟩
  rcases h.value with hvalue | ⟨-, front, back, hvalue, hblank⟩
  · rw [hvalue]
    exact ha.inside
  · intro c hc
    have hquote : Text.isBlank a.quote.char = false := by cases a.quote <;> decide
    have hpad (hmem : c ∈ front ++ back) : (c != a.quote.char && c != '<') = true := by
      obtain ⟨hblank, -⟩ := hblank c hmem
      simp [ne_of_isBlank hblank hquote, ne_of_isBlank hblank (d := '<') (by decide)]
    simp only [hvalue, List.mem_append] at hc
    rcases hc with (hc | hc) | hc
    · exact hpad (List.mem_append_left back hc)
    · exact ha.inside c hc
    · exact hpad (List.mem_append_right front hc)

theorem Tag.Padded.isClosed (h : tag.Padded p depth tag') (htag : tag.IsClosed) : tag'.IsClosed := by
  refine ⟨h.name ▸ htag.isName, ?_, h.trail ▸ htag.trail⟩
  intro a' ha'
  obtain ⟨a, ha, hpadded⟩ := exists_left_of_mem h.attributes ha'
  exact hpadded.isClosed (htag.attributes a ha)

theorem PaddedTokens.head_isClosed {ts ts' : List Token} (h : PaddedTokens p depth ts ts')
    (hts : ∀ t ∈ ts.head?, t.IsClosed) : ∀ t ∈ ts'.head?, t.IsClosed := by
  cases h with
  | nil => exact hts
  | @start _ tag tag' _ _ padded =>
      have htag : tag.IsClosed := hts (.start tag) rfl
      rintro t ⟨⟩
      exact padded.isClosed htag
  | @empty _ tag tag' _ _ padded =>
      have htag : tag.IsClosed := hts (.empty tag) rfl
      rintro t ⟨⟩
      exact padded.isClosed htag
  | close | between => exact hts

theorem PaddedTokens.scanned {ts ts' : List Token} (h : PaddedTokens p depth ts ts')
    (hts : Scanned ts) : Scanned ts' := by
  induction h with
  | nil => exact hts
  | @start _ tag tag' _ _ padded _ ih =>
      cases hts with
      | closed isClosed behind => exact .closed (padded.isClosed isClosed) (ih behind)
  | @empty _ tag tag' _ _ padded _ ih =>
      cases hts with
      | closed isClosed behind => exact .closed (padded.isClosed isClosed) (ih behind)
  | close _ ih =>
      cases hts with
      | closed isClosed behind => exact .closed isClosed (ih behind)
  | between _ hbehind ih =>
      cases hts with
      | closed isClosed behind => exact .closed isClosed (ih behind)
      | text filled inside next behind =>
          exact .text filled inside (hbehind.head_isClosed next) (ih behind)

theorem Padded.exists_tokens {source source' : String} (h : Padded p source source') :
    ∃ ts ts', tokens? source.toList = some ts ∧ tokens? source'.toList = some ts' ∧
      PaddedTokens p 0 ts ts' := by
  obtain ⟨ts, ts', hts, hpadded, rfl⟩ := h
  have hscanned : Scanned ts' := hpadded.scanned (tokens?_eq_some.1 hts).1
  exact ⟨ts, ts', hts, tokens?_eq_some.2 ⟨hscanned, String.toList_ofList⟩, hpadded⟩

end Texts

section Lines

variable {depth : Nat} {element : List Char} {a a' : Attribute} {tag tag' : Tag}

theorem Attribute.Padded.count_render (hbreaks : ¬p.breaks) (h : a.Padded p depth element a') :
    a'.render.count '\n' = a.render.count '\n' := by
  have hvalue : a'.value.count '\n' = a.value.count '\n' := by
    rcases h.value with hvalue | ⟨-, front, back, hvalue, hblank⟩
    · rw [hvalue]
    · have hfree : '\n' ∉ front ++ back := fun hmem => hbreaks ((hblank _ hmem).2 rfl)
      rw [List.mem_append, not_or] at hfree
      rw [hvalue, List.count_append, List.count_append, List.count_eq_zero.2 hfree.1,
        List.count_eq_zero.2 hfree.2, Nat.zero_add, Nat.add_zero]
  have hsame := h.same
  rw [hsame]
  simp [Attribute.render, List.count_cons, hvalue]

theorem Tag.Padded.count_render (hbreaks : ¬p.breaks) (h : tag.Padded p depth tag') :
    tag'.render.count '\n' = tag.render.count '\n' := by
  have hattributes : (tag'.attributes.flatMap Attribute.render).count '\n' =
      (tag.attributes.flatMap Attribute.render).count '\n' := by
    have hall := h.attributes
    generalize tag.attributes = as at hall
    generalize tag'.attributes = as' at hall
    induction hall with
    | nil => rfl
    | cons ha _ ih =>
        rw [List.flatMap_cons, List.flatMap_cons, List.count_append, List.count_append, ih,
          ha.count_render hbreaks]
  simp only [Tag.render, List.count_append, h.name, h.trail, hattributes]

theorem newlines_start (tag : Tag) : (Token.start tag).newlines = tag.render.count '\n' := by
  change ('<' :: tag.render ++ ['>']).count '\n' = _
  simp

theorem newlines_empty (tag : Tag) : (Token.empty tag).newlines = tag.render.count '\n' := by
  change ('<' :: tag.render ++ ['/', '>']).count '\n' = _
  simp

theorem Padding.SameLine.add {line line' n n' : Nat} (h : p.SameLine line line')
    (hn : ¬p.breaks → n' = n) : p.SameLine (line + n) (line' + n') := by
  by_cases hbreaks : p.breaks
  · exact .inl hbreaks
  · exact .inr (by rw [h.resolve_left hbreaks, hn hbreaks])

theorem Padding.SameLine.refl (line : Nat) : p.SameLine line line :=
  .inr rfl

theorem Padding.SameLine.behind_start {line line' : Nat} (h : p.SameLine line line')
    (htag : tag.Padded p depth tag') :
    p.SameLine (line + (Token.start tag).newlines) (line' + (Token.start tag').newlines) := by
  rw [newlines_start, newlines_start]
  exact h.add fun hbreaks => htag.count_render hbreaks

theorem Padding.SameLine.behind_empty {line line' : Nat} (h : p.SameLine line line')
    (htag : tag.Padded p depth tag') :
    p.SameLine (line + (Token.empty tag).newlines) (line' + (Token.empty tag').newlines) := by
  rw [newlines_empty, newlines_empty]
  exact h.add fun hbreaks => htag.count_render hbreaks

end Lines

mutual

/-- Elements inside a number of others, which differ in blanks that are allowed there. -/
inductive PaddedElement (p : Padding) : Nat → Element → Element → Prop
  | mk {depth line line' endLine endLine' : Nat} {tag tag' : Tag} {endName : List Char}
      {children children' : List Element} (padded : tag.Padded p depth tag')
      (sameLine : p.SameLine line line') (inside : PaddedElements p (depth + 1) children children')
      (sameEnd : p.SameLine endLine endLine') :
      PaddedElement p depth (.mk tag line children endName endLine)
        (.mk tag' line' children' endName endLine')

inductive PaddedElements (p : Padding) : Nat → List Element → List Element → Prop
  | nil {depth : Nat} : PaddedElements p depth [] []
  | cons {depth : Nat} {e e' : Element} {es es' : List Element} (first : PaddedElement p depth e e')
      (behind : PaddedElements p depth es es') : PaddedElements p depth (e :: es) (e' :: es')

end

theorem paddedElements_iff {depth : Nat} {es es' : List Element} :
    PaddedElements p depth es es' ↔ List.Forall₂ (PaddedElement p depth) es es' := by
  constructor
  · intro h
    induction es generalizing es' with
    | nil =>
        cases h
        exact .nil
    | cons e es ih =>
        cases h with
        | cons first behind => exact .cons first (ih behind)
  · intro h
    induction h with
    | nil => exact .nil
    | cons first _ ih => exact .cons first ih

structure OpenElement.Padded (p : Padding) (depth : Nat) (o o' : OpenElement) : Prop where
  padded : o.tag.Padded p depth o'.tag
  sameLine : p.SameLine o.line o'.line
  inside : List.Forall₂ (PaddedElement p (depth + 1)) o.children o'.children

inductive PaddedStack (p : Padding) : Nat → List OpenElement → List OpenElement → Prop
  | nil : PaddedStack p 0 [] []
  | cons {depth : Nat} {o o' : OpenElement} {outer outer' : List OpenElement}
      (inner : o.Padded p depth o') (around : PaddedStack p depth outer outer') :
      PaddedStack p (depth + 1) (o :: outer) (o' :: outer')

section Elements

variable {depth line line' : Nat} {ts ts' : List Token}

theorem PaddedElement.leaf {tag tag' : Tag} (h : tag.Padded p depth tag')
    (hline : p.SameLine line line') :
    PaddedElement p depth (.leaf tag line) (.leaf tag' line') := by
  rw [Element.leaf, Element.leaf, h.name]
  exact .mk h hline .nil hline

theorem PaddedTokens.all_isMisc (h : PaddedTokens p depth ts ts') :
    ts.all Token.isMisc = ts'.all Token.isMisc := by
  induction h with
  | nil | start | empty | close => rfl
  | between _ _ ih => rw [List.all_cons, List.all_cons, ih]

def PaddedRest (p : Padding) (x x' : Element × List Located) : Prop :=
  PaddedElement p 0 x.1 x'.1 ∧
    x.2.all (·.token.isMisc) = x'.2.all (·.token.isMisc)

theorem OpenElement.Padded.add {o o' : OpenElement} {e e' : Element} (h : o.Padded p depth o')
    (he : PaddedElement p (depth + 1) e e') :
    OpenElement.Padded p depth ⟨o.tag, o.line, e :: o.children⟩
      ⟨o'.tag, o'.line, e' :: o'.children⟩ :=
  ⟨h.padded, h.sameLine, .cons he h.inside⟩

theorem closeAll?_padded {inner inner' : OpenElement} {outer outer' : List OpenElement}
    (h : PaddedTokens p depth ts ts')
    (hstack : PaddedStack p depth (inner :: outer) (inner' :: outer'))
    (hline : p.SameLine line line') :
    Option.Rel (PaddedRest p) (closeAll? inner outer (locate line ts))
      (closeAll? inner' outer' (locate line' ts')) := by
  induction h generalizing inner inner' outer outer' line line' with
  | nil => exact .none
  | start padded _ ih =>
      exact ih (.cons ⟨padded, hline, .nil⟩ hstack) (hline.behind_start padded)
  | empty padded _ ih =>
      cases hstack with
      | cons hinner hall =>
          exact ih (.cons (hinner.add (.leaf padded hline)) hall) (hline.behind_empty padded)
  | @close depth name trail ts ts' hbehind ih =>
      have hnext : p.SameLine (line + (Token.close name trail).newlines)
          (line' + (Token.close name trail).newlines) := hline.add fun _ => rfl
      cases hstack with
      | cons hinner hall =>
          have helement : PaddedElement p _ (.mk inner.tag inner.line inner.children.reverse name line)
              (.mk inner'.tag inner'.line inner'.children.reverse name line') :=
            .mk hinner.padded hinner.sameLine
              (paddedElements_iff.2 (List.rel_reverse hinner.inside)) hline
          cases hall with
          | nil => exact .some ⟨helement, by rw [all_locate, all_locate, hbehind.all_isMisc]⟩
          | cons hnextInner hall => exact ih (.cons (hnextInner.add helement) hall) hnext
  | @between depth t ts ts' isBetween _ ih =>
      have hnext : p.SameLine (line + t.newlines) (line' + t.newlines) := hline.add fun _ => rfl
      cases t with
      | start | empty | close => cases isBetween
      | comment | instruction | cdata | text => exact ih hstack hnext
      | doctype => exact .none

theorem filter_padded {x x' : Option (Element × List Located)} (h : Option.Rel (PaddedRest p) x x') :
    Option.Rel (PaddedElement p 0)
      ((x.filter fun y => y.2.all (·.token.isMisc)).map Prod.fst)
      ((x'.filter fun y => y.2.all (·.token.isMisc)).map Prod.fst) := by
  cases h with
  | none => exact .none
  | @some y y' hrest =>
      rw [Option.filter_some, Option.filter_some, hrest.2]
      split
      next => exact .some hrest.1
      next => exact .none

theorem rootElement?_padded (h : PaddedTokens p 0 ts ts') (hline : p.SameLine line line') :
    Option.Rel (PaddedElement p 0) (rootElement? (locate line ts))
      (rootElement? (locate line' ts')) := by
  induction ts generalizing ts' line line' with
  | nil =>
      cases h
      exact .none
  | cons t ts ih =>
      cases h with
      | start padded hbehind =>
          exact filter_padded (closeAll?_padded hbehind (.cons ⟨padded, hline, .nil⟩ .nil)
            (hline.behind_start padded))
      | empty padded hbehind =>
          exact filter_padded (.some ⟨.leaf padded hline,
            by rw [all_locate, all_locate, hbehind.all_isMisc]⟩)
      | close => exact .none
      | between isBetween hbehind =>
          have hrest := ih hbehind (hline.add (n := t.newlines) fun _ => rfl)
          cases t with
          | start | empty | close => cases isBetween
          | comment | instruction | doctype => exact hrest
          | cdata => exact .none
          | text body =>
              by_cases hmisc : (Token.text body).isMisc = true
              · simpa only [locate, rootElement?, hmisc, if_true] using hrest
              · simp only [locate, rootElement?, hmisc]
                exact .none

theorem parse?_padded {source source' : String} (h : Padded p source source') :
    Option.Rel (PaddedElement p 0) (parse? source) (parse? source') := by
  obtain ⟨ts, ts', hts, hts', hpadded⟩ := h.exists_tokens
  rw [parse?, parse?, hts, hts']
  exact rootElement?_padded hpadded (.refl 1)

end Elements

def EntityError.bare : EntityError → EntityError
  | unterminated raw => unterminated (Text.trim raw)
  | unknown name => unknown name

namespace Error

/-- The error without its line, and with no blanks around the value that it quotes. -/
def bare : Error → Error
  | malformed => malformed
  | mismatchedEnd _ expected found => mismatchedEnd 0 expected found
  | duplicateAttribute _ element name => duplicateAttribute 0 element name
  | entity _ error => entity 0 error.bare

def line? : Error → Option Nat
  | malformed => none
  | mismatchedEnd line _ _ | duplicateAttribute line _ _ | entity line _ => some line

end Error

structure Padding.SameError (p : Padding) (e e' : Error) : Prop where
  bare : e'.bare = e.bare
  line : p.breaks ∨ e'.line? = e.line?

structure PaddedValue (p : Padding) (depth : Nat) (element : String) (x x' : String × String) :
    Prop where
  name : x'.1 = x.1
  value : x'.2 = x.2 ∨ p.allows depth element x.1 ∧ Text.Padded x.2.toList x'.2.toList

section Values

variable {depth : Nat} {cs cs' : List Char}

theorem Padding.Surrounds.padded (h : p.Surrounds cs cs') : Text.Padded cs cs' := by
  obtain ⟨front, back, rfl, hblank⟩ := h
  exact ⟨front, back, rfl, fun c hc => (hblank c (List.mem_append_left back hc)).1,
    fun c hc => (hblank c (List.mem_append_right front hc)).1⟩

theorem decodeChars_append_left {front : List Char} (hfront : ∀ c ∈ front, Text.isBlank c = true)
    (raw : String) (cs : List Char) :
    decodeChars raw (front ++ cs) = (decodeChars raw cs).map (front ++ ·) := by
  induction front with
  | nil => cases h : decodeChars raw cs <;> simp [h, Except.map]
  | cons c front ih =>
      rw [List.forall_mem_cons] at hfront
      rw [List.cons_append, decodeChars_plain (ne_of_isBlank hfront.1 (by decide)), ih hfront.2]
      cases decodeChars raw cs <;> rfl

def EntityError.requote (raw : String) : EntityError → EntityError
  | unterminated _ => unterminated raw
  | unknown name => unknown name

theorem decodeChars_append_right (back : List Char) (hback : ∀ c ∈ back, Text.isBlank c = true)
    (raw raw' : String) (cs : List Char) : decodeChars raw' (cs ++ back) =
      ((decodeChars raw cs).map (· ++ back)).mapError (EntityError.requote raw') := by
  have hsemicolon : ';' ∉ back := fun hmem => ne_of_isBlank (hback _ hmem) (by decide) rfl
  fun_induction decodeChars raw cs with
  | case1 =>
      have hall := decodeChars_append_left hback raw' []
      rw [List.append_nil, decodeChars] at hall
      simpa [Except.map, Except.mapError] using hall
  | case2 rest hfound =>
      have hrest : ';' ∉ rest := fun hmem => by
        simpa using List.dropWhile_eq_nil_iff.1 hfound _ hmem
      rw [List.cons_append, decodeChars_unterminated (by simp [hrest, hsemicolon])]
      rfl
  | case3 rest mark after hfound name hname =>
      have hfree : ';' ∉ name := fun hmem => by simpa using List.mem_takeWhile_imp hmem
      rw [List.cons_append, eq_of_dropWhile hfound, List.append_assoc, List.cons_append,
        decodeChars_entity hfree, hname]
      rfl
  | case4 rest mark after hfound name c hname =>
      rename_i ih
      have hfree : ';' ∉ name := fun hmem => by simpa using List.mem_takeWhile_imp hmem
      rw [List.cons_append, eq_of_dropWhile hfound, List.append_assoc, List.cons_append,
        decodeChars_entity hfree, hname, Option.elim_some, ih]
      cases decodeChars raw after <;> rfl
  | case5 c rest hc ih =>
      rw [List.cons_append, decodeChars_plain hc, ih]
      cases decodeChars raw rest <;> rfl

theorem requote_of_decodeChars {raw : String} {e : EntityError}
    (h : decodeChars raw cs = .error e) : e.requote raw = e := by
  have hsame := decodeChars_append_right [] (by simp) raw raw cs
  rw [List.append_nil, h] at hsame
  exact (Except.error.inj hsame).symm

theorem trim_ofList (h : Text.Padded cs cs') :
    Text.trim (String.ofList cs') = Text.trim (String.ofList cs) := by
  rw [Text.trim, Text.trim, String.toList_ofList, String.toList_ofList, h.trimChars_eq]

theorem decodeEntities_padded (h : Text.Padded cs cs') :
    Related (fun e e' => e'.bare = e.bare) (fun v v' => Text.Padded v.toList v'.toList)
      (decodeEntities (String.ofList cs)) (decodeEntities (String.ofList cs')) := by
  have htrim := trim_ofList h
  obtain ⟨front, back, rfl, hfront, hback⟩ := h
  rw [decodeEntities, decodeEntities, String.toList_ofList, String.toList_ofList,
    decodeChars_append_right back hback (String.ofList cs), decodeChars_append_left hfront]
  cases hcs : decodeChars (String.ofList cs) cs with
  | ok out =>
      refine .ok ⟨front, back, ?_, hfront, hback⟩
      rw [String.toList_ofList, String.toList_ofList]
  | error e =>
      refine .error ?_
      rw [← requote_of_decodeChars hcs]
      cases e with
      | unterminated raw => exact congrArg EntityError.unterminated htrim
      | unknown name => rfl

theorem any_name_padded {element name : String} {done done' : List (String × String)}
    (h : List.Forall₂ (PaddedValue p depth element) done done') :
    done.any (·.1 == name) = done'.any (·.1 == name) := by
  induction h with
  | nil => rfl
  | cons first _ ih => rw [List.any_cons, List.any_cons, first.name, ih]

theorem readAttributes_padded {element : List Char} {line line' : Nat} {as as' : List Attribute}
    {done done' : List (String × String)}
    (h : List.Forall₂ (Attribute.Padded p depth element) as as')
    (hdone : List.Forall₂ (PaddedValue p depth (String.ofList element)) done done')
    (hline : p.SameLine line line') :
    Related p.SameError (List.Forall₂ (PaddedValue p depth (String.ofList element)))
      (readAttributes (String.ofList element) line done as)
      (readAttributes (String.ofList element) line' done' as') := by
  have hsome : p.breaks ∨ some line' = some line := hline.imp_right (congrArg some)
  induction h generalizing done done' with
  | nil => exact .ok hdone
  | @cons a a' as as' ha _ ih =>
      have hname : a'.name = a.name := by rw [ha.same]
      have hvalue : Related (fun e e' => e'.bare = e.bare)
          (fun v v' => PaddedValue p depth (String.ofList element) (String.ofList a.name, v)
            (String.ofList a.name, v'))
          (decodeEntities (String.ofList a.value)) (decodeEntities (String.ofList a'.value)) := by
        rcases ha.value with heq | ⟨hallows, hsurrounds⟩
        · rw [heq]
          cases decodeEntities (String.ofList a.value) with
          | ok v => exact .ok ⟨rfl, .inl rfl⟩
          | error e => exact .error rfl
        · exact (decodeEntities_padded hsurrounds.padded).imp fun hv => ⟨rfl, .inr ⟨hallows, hv⟩⟩
      simp only [readAttributes, hname]
      generalize decodeEntities (String.ofList a.value) = x at hvalue
      generalize decodeEntities (String.ofList a'.value) = x' at hvalue
      cases hvalue with
      | error herror => exact .error ⟨congrArg (Error.entity 0) herror, hsome⟩
      | ok hv =>
          simp only [any_name_padded hdone]
          split
          next => exact .error ⟨rfl, hsome⟩
          next => exact ih (List.rel_append hdone (.cons hv .nil))

end Values

section Walks

variable {ε σ : Type}

/-- Two walks that come to the end in related states, or stop for the same reason. -/
inductive WalkRelated (p : Padding) (E : ε → ε → Prop) (S : σ → σ → Prop) :
    Walk ε σ → Walk ε σ → Prop
  | done {s s' : σ} (states : S s s') : WalkRelated p E S ⟨s, none⟩ ⟨s', none⟩
  | markup {s s' : σ} {e e' : Error} (errors : p.SameError e e') :
      WalkRelated p E S ⟨s, some (.markup e)⟩ ⟨s', some (.markup e')⟩
  | handler {s s' : σ} {x x' : ε} (errors : E x x') :
      WalkRelated p E S ⟨s, some (.handler x)⟩ ⟨s', some (.handler x')⟩

/-- A handler keeps states related that are related inside a number of open elements, if the events
that it gets differ in blanks that are allowed there. -/
structure Keeps (p : Padding) (E : ε → ε → Prop) (S : Nat → σ → σ → Prop)
    (handle : σ → Event → Except ε σ) : Prop where
  start : ∀ {depth s s' name attributes attributes' line line'}, S depth s s' →
    List.Forall₂ (PaddedValue p depth name) attributes attributes' → p.SameLine line line' →
    Related E (S (depth + 1)) (handle s (.start name attributes line))
      (handle s' (.start name attributes' line'))
  stop : ∀ {depth s s' name line line'}, S (depth + 1) s s' → p.SameLine line line' →
    Related E (S depth) (handle s (.stop name line)) (handle s' (.stop name line'))

variable {E : ε → ε → Prop} {S T : σ → σ → Prop} {R : Nat → σ → σ → Prop}
  {handle : σ → Event → Except ε σ}

theorem WalkRelated.andThen {w w' : Walk ε σ} {next next' : σ → Walk ε σ}
    (h : WalkRelated p E S w w')
    (hnext : ∀ {s s'}, S s s' → WalkRelated p E T (next s) (next' s')) :
    WalkRelated p E T (w.andThen next) (w'.andThen next') := by
  cases h with
  | done states => exact hnext states
  | markup errors => exact .markup errors
  | handler errors => exact .handler errors

theorem walkRelated_deliver {s s' : σ} {e e' : Event} (h : Related E S (handle s e) (handle s' e')) :
    WalkRelated p E S (.deliver handle s e) (.deliver handle s' e') := by
  rw [Walk.deliver, Walk.deliver]
  generalize handle s e = x at h
  generalize handle s' e' = x' at h
  cases h with
  | ok states => exact .done states
  | error errors => exact .handler errors

mutual

theorem Element.walk_padded (hkeeps : Keeps p E R handle) {depth : Nat} {s s' : σ} {e e' : Element}
    (h : PaddedElement p depth e e') (hs : R depth s s') :
    WalkRelated p E (R depth) (e.walk handle s) (e'.walk handle s') := by
  cases h with
  | @mk _ line line' endLine endLine' tag tag' endName children children' padded sameLine inside
      sameEnd =>
      have hread := readAttributes_padded padded.attributes .nil sameLine
      rw [Element.walk, Element.walk, padded.name]
      generalize readAttributes (String.ofList tag.name) line [] tag.attributes = x at hread
      generalize readAttributes (String.ofList tag.name) line' [] tag'.attributes = x' at hread
      cases hread with
      | error errors => exact .markup errors
      | ok hattributes =>
          apply (walkRelated_deliver (hkeeps.start hs hattributes sameLine)).andThen
          intro t t' ht
          apply (Element.walkAll_padded hkeeps inside ht).andThen
          intro u u' hu
          split
          next => exact walkRelated_deliver (hkeeps.stop hu sameEnd)
          next => exact .markup ⟨rfl, sameEnd.imp_right (congrArg some)⟩

theorem Element.walkAll_padded (hkeeps : Keeps p E R handle) {depth : Nat} {s s' : σ}
    {es es' : List Element} (h : PaddedElements p depth es es') (hs : R depth s s') :
    WalkRelated p E (R depth) (Element.walkAll handle s es) (Element.walkAll handle s' es') := by
  cases h with
  | nil => exact .done hs
  | cons first behind =>
      rw [Element.walkAll, Element.walkAll]
      apply (Element.walk_padded hkeeps first hs).andThen
      intro t t' ht
      exact Element.walkAll_padded hkeeps behind ht

end

theorem walk_padded {s s' : σ} {source source' : String} (hkeeps : Keeps p E R handle)
    (h : Padded p source source') (hs : R 0 s s') :
    WalkRelated p E (R 0) (walk handle s source) (walk handle s' source') := by
  have hparse := parse?_padded h
  rw [walk, walk]
  generalize parse? source = root at hparse
  generalize parse? source' = root' at hparse
  cases hparse with
  | none => exact .markup ⟨rfl, .inr rfl⟩
  | some hroot => exact Element.walk_padded hkeeps hroot hs

end Walks

end WireSchema.Markup
