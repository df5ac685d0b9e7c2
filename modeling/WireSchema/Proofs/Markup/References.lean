import Mathlib.Data.List.TakeWhile
import WireSchema.Markup.Entity
import WireSchema.Proofs.Outcome
import WireSchema.Proofs.Text.Numeral

namespace WireSchema.Markup

/-- What may stand between `&` and `;` for a character: one of five names, or its code in decimal or
hexadecimal digits, with or without a plus sign. -/
inductive Reference : List Char → Char → Prop
  | less : Reference "lt".toList '<'
  | greater : Reference "gt".toList '>'
  | ampersand : Reference "amp".toList '&'
  | doubleQuote : Reference "quot".toList '"'
  | singleQuote : Reference "apos".toList '\''
  | decimal {sign digits : List Char} {c : Char} (signed : sign = [] ∨ sign = ['+'])
      (code : Text.Numeral 10 digits c.toNat) : Reference ('#' :: (sign ++ digits)) c
  | hexadecimal {mark : Char} {sign digits : List Char} {c : Char} (marked : mark = 'x' ∨ mark = 'X')
      (signed : sign = [] ∨ sign = ['+']) (code : Text.Numeral 16 digits c.toNat) :
      Reference ('#' :: mark :: (sign ++ digits)) c

inductive Piece : List Char → Char → Prop
  | plain {c : Char} (other : c ≠ '&') : Piece [c] c
  | reference {name : List Char} {c : Char} (refers : Reference name c) :
      Piece ('&' :: (name ++ [';'])) c

section Names

variable {name : List Char} {c : Char}

theorem charOfCode?_eq_some {n : Nat} : charOfCode? n = some c ↔ n = c.toNat := by
  constructor
  · intro h
    rw [charOfCode?] at h
    split_ifs at h with hvalid
    cases h
    rw [Char.ofNat, dif_pos hvalid]
    rfl
  · rintro rfl
    have hvalid : c.toNat.isValidChar := c.valid
    rw [charOfCode?, if_pos hvalid, Char.ofNat_toNat]

theorem code_eq_some {base : Nat} {cs : List Char} :
    (Text.unsigned? base 32 cs).bind charOfCode? = some c ↔
      ∃ sign digits, (sign = [] ∨ sign = ['+']) ∧ cs = sign ++ digits ∧
        Text.Numeral base digits c.toNat := by
  simp only [Option.bind_eq_some_iff, charOfCode?_eq_some, exists_eq_right, Text.unsigned?_eq_some]
  exact and_iff_right c.val.toNat_lt

theorem reference_of_namedEntity? (h : namedEntity? (String.ofList name) = some c) :
    Reference name c := by
  rw [← String.toList_ofList (l := name)]
  generalize String.ofList name = s at h
  rw [namedEntity?.eq_def] at h
  split at h <;> cases h
  · exact .less
  · exact .greater
  · exact .ampersand
  · exact .doubleQuote
  · exact .singleQuote

theorem reference_of_entity? (h : entity? name = some c) : Reference name c := by
  rw [entity?.eq_def] at h
  split at h
  · obtain ⟨sign, digits, hsign, rfl, hcode⟩ := code_eq_some.1 h
    exact .hexadecimal (.inl rfl) hsign hcode
  · obtain ⟨sign, digits, hsign, rfl, hcode⟩ := code_eq_some.1 h
    exact .hexadecimal (.inr rfl) hsign hcode
  · obtain ⟨sign, digits, hsign, rfl, hcode⟩ := code_eq_some.1 h
    exact .decimal hsign hcode
  · exact reference_of_namedEntity? h

theorem notMem_code {base n : Nat} {sign digits : List Char} {d : Char}
    (hsign : sign = [] ∨ sign = ['+']) (hcode : Text.Numeral base digits n) (hplus : d ≠ '+')
    (hd : Text.isDigit base d = false) : d ∉ sign ++ digits := by
  intro hmem
  rcases List.mem_append.1 hmem with hmem | hmem
  · rcases hsign with rfl | rfl
    · cases hmem
    · exact hplus (List.mem_singleton.1 hmem)
  · rw [hcode.isDigit hmem] at hd
    cases hd

theorem entity?_of_reference (h : Reference name c) : entity? name = some c := by
  cases h with
  | less | greater | ampersand | doubleQuote | singleQuote => rfl
  | @decimal sign digits c hsign hcode =>
      have hnot (mark : Char) (hplus : mark ≠ '+') (hmark : Text.isDigit 10 mark = false)
          (ds : List Char) : sign ++ digits ≠ mark :: ds := by
        intro h
        exact notMem_code hsign hcode hplus hmark (h ▸ List.mem_cons_self)
      rw [entity?]
      · exact code_eq_some.2 ⟨sign, digits, hsign, rfl, hcode⟩
      · exact hnot 'x' (by decide) (by decide)
      · exact hnot 'X' (by decide) (by decide)
  | @hexadecimal mark sign digits c hmark hsign hcode =>
      have hhexadecimal := code_eq_some.2 ⟨sign, digits, hsign, rfl, hcode⟩
      rcases hmark with rfl | rfl <;> exact hhexadecimal

theorem Reference.notMem (h : Reference name c) {d : Char}
    (hd : d = ';' ∨ d = '<' ∨ d = '"' ∨ d = '\'') : d ∉ name := by
  obtain ⟨hplus, hhash, hx, hX⟩ : d ≠ '+' ∧ d ≠ '#' ∧ d ≠ 'x' ∧ d ≠ 'X' := by
    rcases hd with rfl | rfl | rfl | rfl <;> decide
  obtain ⟨hdecimal, hhexadecimal⟩ : Text.isDigit 10 d = false ∧ Text.isDigit 16 d = false := by
    rcases hd with rfl | rfl | rfl | rfl <;> decide
  cases h with
  | less | greater | ampersand | doubleQuote | singleQuote =>
      rcases hd with rfl | rfl | rfl | rfl <;> decide
  | decimal hsign hcode =>
      rw [List.mem_cons, not_or]
      exact ⟨hhash, notMem_code hsign hcode hplus hdecimal⟩
  | hexadecimal hmark hsign hcode =>
      rw [List.mem_cons, List.mem_cons, not_or, not_or]
      refine ⟨hhash, ?_, notMem_code hsign hcode hplus hhexadecimal⟩
      rcases hmark with rfl | rfl
      · exact hx
      · exact hX

end Names

section Texts

variable {whole : String} {text out : List Char}

theorem decodeChars_plain {c : Char} (hc : c ≠ '&') (text : List Char) :
    decodeChars whole (c :: text) = (decodeChars whole text).map (c :: ·) := by
  rw [decodeChars]
  exact hc

theorem eq_of_dropWhile {mark : Char} {after : List Char}
    (h : text.dropWhile (· != ';') = mark :: after) :
    text = text.takeWhile (· != ';') ++ ';' :: after := by
  have hne : text.dropWhile (· != ';') ≠ [] := by simp [h]
  have hmark : mark = ';' := by simpa [h] using List.head_dropWhile_not (· != ';') hne
  rw [hmark] at h
  rw [← h, List.takeWhile_append_dropWhile]

theorem decodeChars_unterminated (h : ';' ∉ text) :
    decodeChars whole ('&' :: text) = .error (.unterminated whole) := by
  have hdrop : text.dropWhile (· != ';') = [] := by
    rw [List.dropWhile_eq_nil_iff]
    intro c hc
    rw [bne_iff_ne]
    rintro rfl
    exact h hc
  rw [decodeChars]
  split
  next => rfl
  next after hfound =>
    rw [hdrop] at hfound
    cases hfound

theorem decodeChars_entity {name : List Char} (h : ';' ∉ name) (text : List Char) :
    decodeChars whole ('&' :: (name ++ ';' :: text)) =
      (entity? name).elim (.error (.unknown (String.ofList name))) fun c =>
        (decodeChars whole text).map (c :: ·) := by
  have hname : ∀ d ∈ name, (d != ';') = true := by
    intro d hd
    rw [bne_iff_ne]
    rintro rfl
    exact h hd
  have hdrop : (name ++ ';' :: text).dropWhile (· != ';') = ';' :: text := by
    rw [List.dropWhile_append_of_pos hname]
    rfl
  have htake : (name ++ ';' :: text).takeWhile (· != ';') = name := by
    rw [List.takeWhile_append_of_pos hname]
    exact List.append_nil name
  rw [decodeChars]
  split
  next hnil =>
    rw [hdrop] at hnil
    cases hnil
  next after hfound =>
    rw [hdrop] at hfound
    cases hfound
    simp only [htake]
    cases entity? name <;> rfl

theorem decodeChars_reference {name : List Char} {c : Char} (h : Reference name c)
    (text : List Char) : decodeChars whole ('&' :: (name ++ ';' :: text)) =
      (decodeChars whole text).map (c :: ·) := by
  rw [decodeChars_entity (h.notMem (.inl rfl)), entity?_of_reference h, Option.elim_some]

theorem Piece.decodeChars_append {piece : List Char} {c : Char} (h : Piece piece c)
    (text : List Char) :
    decodeChars whole (piece ++ text) = (decodeChars whole text).map (c :: ·) := by
  cases h with
  | plain hc => exact decodeChars_plain hc text
  | reference h =>
      rw [List.cons_append, List.append_assoc]
      exact decodeChars_reference h text

theorem decodeChars_of_pieces {pieces : List (List Char)} (h : List.Forall₂ Piece pieces out) :
    decodeChars whole pieces.flatten = .ok out := by
  induction h with
  | nil => rw [List.flatten_nil, decodeChars]
  | cons hpiece _ ih =>
      rw [List.flatten_cons, hpiece.decodeChars_append, ih]
      rfl

theorem pieces_of_decodeChars (h : decodeChars whole text = .ok out) :
    ∃ pieces : List (List Char), List.Forall₂ Piece pieces out ∧ pieces.flatten = text := by
  fun_induction decodeChars whole text generalizing out with
  | case1 =>
      cases h
      exact ⟨[], .nil, rfl⟩
  | case2 => cases h
  | case3 => cases h
  | case4 rest mark after hfound name c hname =>
      rename_i ih
      obtain ⟨out, hout, rfl⟩ := Outcome.map_eq_ok.1 h
      obtain ⟨pieces, hpieces, rfl⟩ := ih hout
      refine ⟨_ :: pieces, .cons (.reference (reference_of_entity? hname)) hpieces, ?_⟩
      rw [List.flatten_cons, List.cons_append, List.append_assoc, List.singleton_append,
        ← eq_of_dropWhile hfound]
  | case5 c rest hc ih =>
      obtain ⟨out, hout, rfl⟩ := Outcome.map_eq_ok.1 h
      obtain ⟨pieces, hpieces, rfl⟩ := ih hout
      exact ⟨[c] :: pieces, .cons (.plain hc) hpieces, rfl⟩

end Texts

/-- `raw` is a way of writing `s`, with a piece for each character of `s`. -/
def Spells (raw s : String) : Prop :=
  ∃ pieces : List (List Char), List.Forall₂ Piece pieces s.toList ∧ pieces.flatten = raw.toList

theorem decodeEntities_eq_ok {raw s : String} : decodeEntities raw = .ok s ↔ Spells raw s := by
  rw [decodeEntities]
  constructor
  · intro h
    obtain ⟨out, hout, rfl⟩ := Outcome.map_eq_ok.1 h
    rw [Spells, String.toList_ofList]
    exact pieces_of_decodeChars hout
  · rintro ⟨pieces, hpieces, hraw⟩
    rw [← hraw, decodeChars_of_pieces hpieces]
    exact congrArg Except.ok (String.ofList_toList)

theorem Spells.append {a b u v : String} (ha : Spells a u) (hb : Spells b v) :
    Spells (a ++ b) (u ++ v) := by
  obtain ⟨as, hu, ha⟩ := ha
  obtain ⟨bs, hv, hb⟩ := hb
  refine ⟨as ++ bs, ?_, ?_⟩
  · rw [String.toList_append]
    exact List.rel_append hu hv
  · rw [List.flatten_append, String.toList_append, ha, hb]

/-- Reading references is exact. A text can be read as another one exactly if it is put together from
pieces that stand for the characters of the other one. So a text is read from each way of writing it,
and two texts that can be read can be read one after the other. -/
theorem decodeEntities_exact :
    (∀ raw s : String, decodeEntities raw = .ok s ↔ Spells raw s) ∧
    (∀ (s : String) (pieces : List (List Char)), List.Forall₂ Piece pieces s.toList →
      decodeEntities (String.ofList pieces.flatten) = .ok s) ∧
    ∀ a b u v : String, decodeEntities a = .ok u → decodeEntities b = .ok v →
      decodeEntities (a ++ b) = .ok (u ++ v) := by
  refine ⟨fun raw s => decodeEntities_eq_ok, ?_, ?_⟩
  · intro s pieces hpieces
    exact decodeEntities_eq_ok.2 ⟨pieces, hpieces, by rw [String.toList_ofList]⟩
  · intro a b u v ha hb
    exact decodeEntities_eq_ok.2 ((decodeEntities_eq_ok.1 ha).append (decodeEntities_eq_ok.1 hb))

theorem decodeEntities_exact_mixed :
    decodeEntities "&#x+041;&amp;b" = .ok "A&b" ∧ decodeEntities "&#128512;" = .ok "😀" ∧
      decodeEntities ("&#x+041;&amp;b" ++ "&#128512;") = .ok ("A&b" ++ "😀") := by
  obtain ⟨hexact, hpieces, happend⟩ := decodeEntities_exact
  have hcode : Text.Numeral 16 "041".toList 'A'.toNat := Text.numeral?_eq_some.1 (by decide)
  have hwide : Text.Numeral 10 "128512".toList '😀'.toNat := Text.numeral?_eq_some.1 (by decide)
  have hfirst : decodeEntities "&#x+041;&amp;b" = .ok "A&b" :=
    hpieces "A&b" ["&#x+041;".toList, "&amp;".toList, ['b']]
      (.cons (.reference (.hexadecimal (.inl rfl) (.inr rfl) hcode))
        (.cons (.reference .ampersand) (.cons (.plain (by decide)) .nil)))
  have hsecond : decodeEntities "&#128512;" = .ok "😀" :=
    (hexact _ _).2 ⟨["&#128512;".toList], .cons (.reference (.decimal (.inl rfl) hwide)) .nil, rfl⟩
  exact ⟨hfirst, hsecond, happend _ _ _ _ hfirst hsecond⟩

end WireSchema.Markup
