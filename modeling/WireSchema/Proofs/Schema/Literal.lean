import WireSchema.Proofs.Text.Blank
import WireSchema.Proofs.Text.Numeral
import WireSchema.Schema.Literal

namespace WireSchema.Text

theorem Solid.append {as bs : List Char} (ha : Solid as) (hb : Solid bs) : Solid (as ++ bs) :=
  List.forall_mem_append.2 ⟨ha, hb⟩

theorem Sign.solid {sign : List Char} {factor : Int} (h : Sign sign factor) : Solid sign := by
  cases h with
  | absent => exact List.forall_mem_nil _
  | plus => exact List.forall_mem_singleton.2 (by decide)
  | minus => exact List.forall_mem_singleton.2 (by decide)

theorem isBlank_of_digitValue {c : Char} {d : Nat} (h : digitValue c = some d) :
    isBlank c = false := by
  have hcode : ∀ k < 128, digitValue (Char.ofNat k) ≠ none → isBlank (Char.ofNat k) = false := by
    decide
  have hc := hcode c.toNat (toNat_lt_of_digitValue h)
  rw [Char.ofNat_toNat, h] at hc
  exact hc (Option.some_ne_none d)

theorem Numeral.solid {base n : Nat} {cs : List Char} (h : Numeral base cs n) : Solid cs := by
  intro c hc
  obtain ⟨d, hd⟩ := h.digits.2.1 c hc
  exact isBlank_of_digitValue (isDigitOf_iff.1 hd).1

end WireSchema.Text

namespace WireSchema.Literal

open Text

/-- An integer as it is written: at most one sign, then decimal digits, or hexadecimal ones behind
`0x`. -/
inductive IsInteger : List Char → Int → Prop
  | decimal {sign digits : List Char} {factor : Int} {n : Nat} (signed : Sign sign factor)
      (number : Numeral 10 digits n) : IsInteger (sign ++ digits) (factor * n)
  | hexadecimal {sign digits : List Char} {factor : Int} {n : Nat} {x : Char}
      (signed : Sign sign factor) (mark : x = 'x' ∨ x = 'X') (number : Numeral 16 digits n) :
      IsInteger (sign ++ '0' :: x :: digits) (factor * n)

/-- Hexadecimal digits with a second sign, which stands behind `0x`. -/
inductive HasInnerSign : List Char → Int → Prop
  | hexadecimal {sign inner digits : List Char} {factor innerFactor : Int} {n : Nat} {x : Char}
      (signed : Sign sign factor) (mark : x = 'x' ∨ x = 'X') (innerSigned : Sign inner innerFactor)
      (present : inner ≠ []) (number : Numeral 16 digits n) :
      HasInnerSign (sign ++ '0' :: x :: (inner ++ digits)) (factor * (innerFactor * n))

def IsMarked (cs : List Char) : Prop :=
  ∃ sign factor x rest, Sign sign factor ∧ (x = 'x' ∨ x = 'X') ∧ cs = sign ++ '0' :: x :: rest

variable {cs : List Char} {n : Int}

theorem readReal?_ne_int : readReal? cs ≠ some (.int n) := by
  simp [readReal?]

theorem readChars?_marked {sign rest : List Char} {factor : Int} {x : Char}
    (hsign : Sign sign factor) (hx : x = 'x' ∨ x = 'X') :
    readChars? (sign ++ '0' :: x :: rest) =
      (signed? 16 128 rest).map fun n => .int (factor * n) := by
  obtain rfl | rfl := hx <;> cases hsign <;> simp [readChars?]

theorem readChars?_unmarked (h : ¬IsMarked cs) :
    readChars? cs = ((signed? 10 128 cs).map .int).or (readReal? cs) := by
  have hmark {sign rest : List Char} {factor : Int} {x : Char} (hsign : Sign sign factor)
      (hx : x = 'x' ∨ x = 'X') : cs ≠ sign ++ '0' :: x :: rest :=
    fun hcs => h ⟨sign, factor, x, rest, hsign, hx, hcs⟩
  -- the sign decides where the mark would stand
  by_cases hminus : ∃ ds, cs = '-' :: ds
  · obtain ⟨ds, rfl⟩ := hminus
    simp only [readChars?]
    split
    next => exact absurd rfl (hmark .minus (.inl rfl))
    next => exact absurd rfl (hmark .minus (.inr rfl))
    next => cases signed? 10 128 ('-' :: ds) <;> rfl
  by_cases hplus : ∃ ds, cs = '+' :: ds
  · obtain ⟨ds, rfl⟩ := hplus
    simp only [readChars?]
    split
    next => exact absurd rfl (hmark .plus (.inl rfl))
    next => exact absurd rfl (hmark .plus (.inr rfl))
    next => cases signed? 10 128 ('+' :: ds) <;> rfl
  · rw [not_exists] at hminus hplus
    simp only [readChars?]
    split
    next => exact absurd rfl (hmark .absent (.inl rfl))
    next => exact absurd rfl (hmark .absent (.inr rfl))
    next => cases signed? 10 128 cs <;> rfl

theorem not_isMarked_of_decimal {sign digits : List Char} {factor : Int} {m : Nat}
    (hsign : Sign sign factor) (hdigits : Numeral 10 digits m) : ¬IsMarked (sign ++ digits) := by
  rintro ⟨sign', factor', x, rest, -, hx, hcs⟩
  have hmem : x ∈ sign ++ digits := by simp [hcs]
  obtain hmem | hmem := List.mem_append.1 hmem
  · cases hsign <;> obtain rfl | rfl := hx <;> simp at hmem
  · have hdigit := hdigits.isDigit hmem
    obtain rfl | rfl := hx <;> exact absurd hdigit (by decide)

theorem solid_mark {x : Char} {rest : List Char} (hx : x = 'x' ∨ x = 'X') (hrest : Solid rest) :
    Solid ('0' :: x :: rest) := by
  unfold Solid
  rw [List.forall_mem_cons, List.forall_mem_cons]
  refine ⟨by decide, ?_, hrest⟩
  obtain rfl | rfl := hx <;> decide

theorem natAbs_mul_of_sign {sign : List Char} {factor : Int} (h : Sign sign factor) (k : Int) :
    (factor * k).natAbs = k.natAbs := by
  cases h <;> simp

theorem readChars?_of_marked {sign rest : List Char} {factor k : Int} {x : Char}
    (hsign : Sign sign factor) (hx : x = 'x' ∨ x = 'X') (hk : SignedNumeral 16 rest k)
    (hrange : (factor * k).natAbs < Nat.pow 2 127) :
    readChars? (sign ++ '0' :: x :: rest) = some (.int (factor * k)) := by
  rw [natAbs_mul_of_sign hsign] at hrange
  have hsigned : signed? 16 128 rest = some k :=
    signed?_eq_some.2 ⟨hk, show -(Nat.pow 2 127 : Int) ≤ k ∧ k < (Nat.pow 2 127 : Int) by omega⟩
  rw [readChars?_marked hsign hx, hsigned]
  rfl

theorem readChars?_eq_int (hn : n.natAbs < Nat.pow 2 127) :
    readChars? cs = some (.int n) ↔ IsInteger cs n ∨ HasInnerSign cs n := by
  have hrange : -(Nat.pow 2 127 : Int) ≤ n ∧ n < (Nat.pow 2 127 : Int) := by omega
  constructor
  · intro h
    by_cases hmarked : IsMarked cs
    · obtain ⟨sign, factor, x, rest, hsign, hx, rfl⟩ := hmarked
      rw [readChars?_marked hsign hx, Option.map_eq_some_iff] at h
      obtain ⟨k, hk, hint⟩ := h
      obtain ⟨⟨inner, innerFactor, digits, m, hinner, rfl, hdigits, rfl⟩, -⟩ :=
        signed?_eq_some.1 hk
      cases hint
      by_cases hpresent : inner = []
      · subst hpresent
        cases hinner
        rw [Int.one_mul]
        exact .inl (.hexadecimal hsign hx hdigits)
      · exact .inr (.hexadecimal hsign hx hinner hpresent hdigits)
    · rw [readChars?_unmarked hmarked, Option.or_eq_some_iff] at h
      obtain h | ⟨-, h⟩ := h
      · obtain ⟨k, hk, hint⟩ := Option.map_eq_some_iff.1 h
        cases hint
        obtain ⟨⟨sign, factor, digits, m, hsign, rfl, hdigits, rfl⟩, -⟩ := signed?_eq_some.1 hk
        exact .inl (.decimal hsign hdigits)
      · exact absurd h readReal?_ne_int
  · rintro (h | h)
    · cases h with
      | @decimal sign digits factor m hsign hdigits =>
          have hsigned : signed? 10 128 (sign ++ digits) = some (factor * m) :=
            signed?_eq_some.2 ⟨⟨sign, factor, digits, m, hsign, rfl, hdigits, rfl⟩, hrange⟩
          rw [readChars?_unmarked (not_isMarked_of_decimal hsign hdigits), hsigned]
          rfl
      | @hexadecimal sign digits factor m x hsign hx hdigits =>
          have hsigned : SignedNumeral 16 digits m :=
            ⟨[], 1, digits, m, .absent, rfl, hdigits, (Int.one_mul m).symm⟩
          exact readChars?_of_marked hsign hx hsigned hn
    · obtain ⟨hsign, hx, hinner, -, hdigits⟩ := h
      exact readChars?_of_marked hsign hx ⟨_, _, _, _, hinner, rfl, hdigits, rfl⟩ hn

theorem solid_of_integer (h : IsInteger cs n ∨ HasInnerSign cs n) : Solid cs := by
  obtain h | h := h
  · cases h with
    | decimal hsign hdigits => exact hsign.solid.append hdigits.solid
    | hexadecimal hsign hx hdigits => exact hsign.solid.append (solid_mark hx hdigits.solid)
  · obtain ⟨hsign, hx, hinner, -, hdigits⟩ := h
    exact hsign.solid.append (solid_mark hx (hinner.solid.append hdigits.solid))

/-- An integer is read from a text exactly if the text, blanks around it aside, is that integer as
integers are written, or has hexadecimal digits with a sign of their own. -/
theorem read?_eq_int {s : String} {n : Int} (hn : n.natAbs < Nat.pow 2 127) :
    read? s = some (.int n) ↔
      ∃ core, Padded core s.toList ∧ (IsInteger core n ∨ HasInnerSign core n) := by
  rw [read?, readChars?_eq_int hn]
  constructor
  · intro h
    exact ⟨_, padded_trimChars s.toList, h⟩
  · rintro ⟨core, hpadded, h⟩
    rwa [(solid_of_integer h).trimChars_eq_iff.2 hpadded]

theorem read?_eq_int_padded : (-31 : Int).natAbs < Nat.pow 2 127 ∧
    ∃ core, Padded core " -0X1f\n".toList ∧
      (IsInteger core (-31) ∨ HasInnerSign core (-31)) :=
  ⟨by decide, (read?_eq_int (by decide)).1 (by decide +kernel)⟩

/-- A text that is no integer as integers are written, but is read as one. -/
theorem read?_inner_sign : read? "0x-5" = some (.int (-5)) ∧
    ∀ core n, Padded core "0x-5".toList → ¬IsInteger core n := by
  refine ⟨by decide +kernel, ?_⟩
  intro core n hpadded h
  have hcore : core = ['0', 'x', '-', '5'] :=
    ((solid_of_integer (.inl h)).trimChars_eq_iff.2 hpadded).symm
  cases h with
  | decimal hsign hdigits =>
      refine not_isMarked_of_decimal hsign hdigits ?_
      exact ⟨[], 1, 'x', ['-', '5'], .absent, .inl rfl, hcore⟩
  | hexadecimal hsign hx hdigits =>
      cases hsign <;> simp at hcore
      rw [hcore.2] at hdigits
      exact absurd (hdigits.isDigit List.mem_cons_self) (by decide)

end WireSchema.Literal
