import Mathlib.Algebra.Order.Ring.Nat
import Mathlib.Data.List.Induction
import Mathlib.Tactic.Ring
import WireSchema.Text.Basic

namespace WireSchema.Text

def smallDigits : List Char := "0123456789abcdefghijklmnopqrstuvwxyz".toList

def capitalDigits : List Char := "0123456789ABCDEFGHIJKLMNOPQRSTUVWXYZ".toList

/-- `c` stands for `d` in a base. From ten on digits are letters, small or capital. -/
def IsDigitOf (base : Nat) (c : Char) (d : Nat) : Prop :=
  d < base ∧ (smallDigits[d]? = some c ∨ capitalDigits[d]? = some c)

inductive Numeral (base : Nat) : List Char → Nat → Prop
  | digit {c : Char} {d : Nat} (digit : IsDigitOf base c d) : Numeral base [c] d
  | snoc {cs : List Char} {n : Nat} {c : Char} {d : Nat} (front : Numeral base cs n)
      (digit : IsDigitOf base c d) : Numeral base (cs ++ [c]) (base * n + d)

variable {base bits n : Nat} {c : Char} {cs : List Char}

theorem toNat_lt_of_digitValue {d : Nat} (h : digitValue c = some d) : c.toNat < 128 := by
  have hlast {high : Char} (hc : c ≤ high) (hhigh : high.toNat < 128) : c.toNat < 128 :=
    Nat.lt_of_le_of_lt hc hhigh
  rw [digitValue] at h
  split_ifs at h with hdigit hsmall hcapital
  · exact hlast hdigit.2 (by decide)
  · exact hlast hsmall.2 (by decide)
  · exact hlast hcapital.2 (by decide)

theorem digitValue_eq_some {d : Nat} :
    digitValue c = some d ↔ smallDigits[d]? = some c ∨ capitalDigits[d]? = some c := by
  constructor
  · intro h
    have hcode : ∀ k < 128, ∀ d ∈ digitValue (Char.ofNat k),
        smallDigits[d]? = some (Char.ofNat k) ∨ capitalDigits[d]? = some (Char.ofNat k) := by decide
    have hc := hcode c.toNat (toNat_lt_of_digitValue h)
    rw [Char.ofNat_toNat] at hc
    exact hc d h
  · have hsmall : ∀ k < 36, smallDigits[k]?.bind digitValue = some k := by decide
    have hcapital : ∀ k < 36, capitalDigits[k]?.bind digitValue = some k := by decide
    rintro (h | h)
    · have hvalue := hsmall d (List.getElem?_eq_some_iff.1 h).1
      rwa [h, Option.bind_some] at hvalue
    · have hvalue := hcapital d (List.getElem?_eq_some_iff.1 h).1
      rwa [h, Option.bind_some] at hvalue

theorem isDigitOf_iff {d : Nat} : IsDigitOf base c d ↔ digitValue c = some d ∧ d < base := by
  rw [IsDigitOf, digitValue_eq_some, and_comm]

theorem isDigit_iff : isDigit base c ↔ ∃ d, IsDigitOf base c d := by
  simp only [isDigitOf_iff]
  rw [isDigit]
  cases digitValue c with
  | none => simp
  | some d => simp

theorem digitsValue_append (cs : List Char) {d : Nat} (h : IsDigitOf base c d) :
    digitsValue base (cs ++ [c]) = base * digitsValue base cs + d := by
  rw [digitsValue, List.foldl_append, ← digitsValue, List.foldl_cons, List.foldl_nil,
    (isDigitOf_iff.1 h).1, Option.getD_some]

theorem numeral?_eq_some_iff : numeral? base cs = some n ↔
    cs ≠ [] ∧ (∀ c ∈ cs, ∃ d, IsDigitOf base c d) ∧ digitsValue base cs = n := by
  simp only [← isDigit_iff]
  simp [numeral?, and_assoc]

namespace Numeral

theorem digits (h : Numeral base cs n) :
    cs ≠ [] ∧ (∀ c ∈ cs, ∃ d, IsDigitOf base c d) ∧ digitsValue base cs = n := by
  induction h with
  | digit hd =>
      refine ⟨List.cons_ne_nil _ _, by simpa using ⟨_, hd⟩, ?_⟩
      simpa [digitsValue] using digitsValue_append [] hd
  | @snoc cs n c d _ hd ih =>
      obtain ⟨-, hdigits, rfl⟩ := ih
      refine ⟨by simp, ?_, digitsValue_append cs hd⟩
      intro e he
      rcases List.mem_append.1 he with he | he
      · exact hdigits e he
      · rw [List.mem_singleton.1 he]
        exact ⟨d, hd⟩

theorem of_digits (hne : cs ≠ []) (h : ∀ c ∈ cs, ∃ d, IsDigitOf base c d) :
    Numeral base cs (digitsValue base cs) := by
  induction cs using List.reverseRecOn with
  | nil => exact absurd rfl hne
  | append_singleton cs c ih =>
      obtain ⟨d, hd⟩ := h c (by simp)
      rw [digitsValue_append cs hd]
      by_cases hcs : cs = []
      · subst hcs
        simpa [digitsValue] using digit hd
      · exact snoc (ih hcs fun e he => h e (List.mem_append_left _ he)) hd

end Numeral

theorem numeral?_eq_some : numeral? base cs = some n ↔ Numeral base cs n := by
  rw [numeral?_eq_some_iff]
  constructor
  · rintro ⟨hne, hdigits, rfl⟩
    exact .of_digits hne hdigits
  · exact Numeral.digits

theorem Numeral.isDigit (h : Numeral base cs n) (hc : c ∈ cs) : isDigit base c :=
  isDigit_iff.2 (h.digits.2.1 c hc)

/-- A plus sign is no digit, so it can only stand before the digits. -/
theorem unsigned?_eq_some : unsigned? base bits cs = some n ↔ n < Nat.pow 2 bits ∧
    ∃ sign digits, (sign = [] ∨ sign = ['+']) ∧ cs = sign ++ digits ∧ Numeral base digits n := by
  have hread (ds : List Char) : (numeral? base ds).filter (· < Nat.pow 2 bits) = some n ↔
      n < Nat.pow 2 bits ∧ Numeral base ds n := by
    rw [Option.filter_eq_some_iff, numeral?_eq_some, decide_eq_true_iff, and_comm]
  simp only [unsigned?]
  split
  next ds =>
    rw [hread]
    apply and_congr_right
    intro _
    constructor
    · intro h
      exact ⟨['+'], ds, .inr rfl, rfl, h⟩
    · rintro ⟨sign, digits, rfl | rfl, hds, h⟩
      · rw [List.nil_append] at hds
        subst hds
        exact absurd (h.isDigit List.mem_cons_self) Bool.false_ne_true
      · cases hds
        exact h
  next hplus =>
    rw [hread]
    apply and_congr_right
    intro _
    constructor
    · intro h
      exact ⟨[], cs, .inl rfl, rfl, h⟩
    · rintro ⟨sign, digits, rfl | rfl, hds, h⟩
      · rwa [hds]
      · exact absurd hds (hplus digits)

inductive Sign : List Char → Int → Prop
  | absent : Sign [] 1
  | plus : Sign ['+'] 1
  | minus : Sign ['-'] (-1)

def SignedNumeral (base : Nat) (cs : List Char) (n : Int) : Prop :=
  ∃ sign factor digits m, Sign sign factor ∧ cs = sign ++ digits ∧ Numeral base digits m ∧
    n = factor * (m : Int)

theorem signedNumeral_minus {n : Int} :
    SignedNumeral base ('-' :: cs) n ↔ ∃ m, Numeral base cs m ∧ -(m : Int) = n := by
  constructor
  · rintro ⟨sign, factor, digits, m, hsign, hcs, hdigits, rfl⟩
    cases hsign with
    | absent =>
        subst hcs
        exact absurd (hdigits.isDigit List.mem_cons_self) Bool.false_ne_true
    | plus => cases hcs
    | minus =>
        cases hcs
        exact ⟨m, hdigits, (Int.neg_one_mul m).symm⟩
  · rintro ⟨m, hdigits, rfl⟩
    exact ⟨['-'], -1, cs, m, .minus, rfl, hdigits, (Int.neg_one_mul m).symm⟩

theorem signedNumeral_plus {n : Int} :
    SignedNumeral base ('+' :: cs) n ↔ ∃ m, Numeral base cs m ∧ (m : Int) = n := by
  constructor
  · rintro ⟨sign, factor, digits, m, hsign, hcs, hdigits, rfl⟩
    cases hsign with
    | absent =>
        subst hcs
        exact absurd (hdigits.isDigit List.mem_cons_self) Bool.false_ne_true
    | plus =>
        cases hcs
        exact ⟨m, hdigits, (Int.one_mul m).symm⟩
    | minus => cases hcs
  · rintro ⟨m, hdigits, rfl⟩
    exact ⟨['+'], 1, cs, m, .plus, rfl, hdigits, (Int.one_mul m).symm⟩

theorem signedNumeral_unsigned {n : Int} (hminus : ∀ ds, cs ≠ '-' :: ds)
    (hplus : ∀ ds, cs ≠ '+' :: ds) :
    SignedNumeral base cs n ↔ ∃ m, Numeral base cs m ∧ (m : Int) = n := by
  constructor
  · rintro ⟨sign, factor, digits, m, hsign, hcs, hdigits, rfl⟩
    cases hsign with
    | absent =>
        subst hcs
        exact ⟨m, hdigits, (Int.one_mul m).symm⟩
    | plus => exact absurd hcs (hplus digits)
    | minus => exact absurd hcs (hminus digits)
  · rintro ⟨m, hdigits, rfl⟩
    exact ⟨[], 1, cs, m, .absent, rfl, hdigits, (Int.one_mul m).symm⟩

theorem signed?_eq_some {n : Int} : signed? base bits cs = some n ↔
    SignedNumeral base cs n ∧
      (-(Nat.pow 2 (bits - 1) : Int) ≤ n ∧ n < (Nat.pow 2 (bits - 1) : Int)) := by
  simp only [signed?]
  rw [Option.filter_eq_some_iff, decide_eq_true_iff]
  apply and_congr_left
  intro _
  split
  next ds =>
    rw [signedNumeral_minus]
    simp only [← numeral?_eq_some]
    cases numeral? base ds with
    | none => simp
    | some m => simp
  next ds =>
    rw [signedNumeral_plus]
    simp only [← numeral?_eq_some]
    exact Option.map_eq_some_iff
  next hminus hplus =>
    rw [signedNumeral_unsigned hminus hplus]
    simp only [← numeral?_eq_some]
    exact Option.map_eq_some_iff

theorem isDigitOf_digitChar {n : Nat} (hn : n < 10) : IsDigitOf 10 n.digitChar n := by
  rw [isDigitOf_iff]
  exact ⟨by decide +revert, hn⟩

theorem numeral_toDigits (n : Nat) : Numeral 10 (Nat.toDigits 10 n) n := by
  induction n using Nat.strongRecOn with
  | _ n ih =>
    obtain hlt | hle := Nat.lt_or_ge n 10
    · rw [Nat.toDigits_of_lt_base hlt]
      exact .digit (isDigitOf_digitChar hlt)
    · rw [Nat.toDigits_of_base_le (by decide) hle]
      have hlast : n % 10 < 10 := Nat.mod_lt n (by decide)
      have h := Numeral.snoc (ih (n / 10) (by omega)) (isDigitOf_digitChar hlast)
      rwa [Nat.div_add_mod] at h

theorem foldl_digits (base n : Nat) (cs : List Char) :
    cs.foldl (fun n c => base * n + (digitValue c).getD 0) n =
      n * base ^ cs.length + digitsValue base cs := by
  induction cs using List.reverseRecOn with
  | nil => simp [digitsValue]
  | append_singleton cs c ih =>
    rw [digitsValue, List.foldl_append, List.foldl_append, ← digitsValue, ih, List.length_append,
      pow_add]
    simp
    ring

theorem digitsValue_append_eq (base : Nat) (cs ds : List Char) :
    digitsValue base (cs ++ ds) = digitsValue base cs * base ^ ds.length + digitsValue base ds := by
  rw [digitsValue, List.foldl_append, foldl_digits, ← digitsValue]

theorem digitsValue_replicate_zero (base k : Nat) :
    digitsValue base (List.replicate k '0') = 0 := by
  induction k with
  | zero => rfl
  | succ k ih =>
    rw [List.replicate_succ', digitsValue_append_eq, ih]
    simp [digitsValue, show digitValue '0' = some 0 from rfl]

end WireSchema.Text
