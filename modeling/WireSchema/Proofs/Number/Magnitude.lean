import Mathlib.Algebra.Order.Ring.Nat
import Mathlib.Order.Monotone.Basic
import Mathlib.Tactic.Ring
import WireSchema.Number.Binary

namespace WireSchema.BinaryFormat

variable {f : BinaryFormat}

def half (f : BinaryFormat) : Nat := 2 ^ (f.precision - 1)

def step (f : BinaryFormat) (word : Nat) : Nat := 2 ^ (word / f.half - 1)

theorem half_pos : 0 < f.half :=
  Nat.two_pow_pos _

theorem step_pos (word : Nat) : 0 < f.step word :=
  Nat.two_pow_pos _

theorem two_mul_half (hp : 0 < f.precision) : 2 * f.half = 2 ^ f.precision := by
  rw [half, ← pow_succ']
  congr 1
  omega

theorem units_eq_ite (word : Nat) : f.units word =
    if word / f.half = 0 then word
    else (f.half + word % f.half) * 2 ^ (word / f.half - 1) := rfl

/-- A power of two may be written with the exponent before it, as the end of that one's words. -/
theorem units_mul_add (e : Nat) {m : Nat} (hm : m ≤ f.half) :
    f.units (e * f.half + m) = ((if e = 0 then 0 else f.half) + m) * 2 ^ (e - 1) := by
  obtain hlt | rfl := Nat.lt_or_eq_of_le hm
  · have hdiv : (e * f.half + m) / f.half = e := by
      rw [Nat.add_comm, Nat.add_mul_div_right _ _ half_pos, Nat.div_eq_of_lt hlt, Nat.zero_add]
    have hmod : (e * f.half + m) % f.half = m := by
      rw [Nat.add_comm, Nat.add_mul_mod_self_right, Nat.mod_eq_of_lt hlt]
    rw [units_eq_ite, hdiv, hmod]
    by_cases he : e = 0 <;> simp [he]
  · have hdiv : (e * f.half + f.half) / f.half = e + 1 := by
      rw [← Nat.succ_mul, Nat.mul_div_cancel _ half_pos]
    have hmod : (e * f.half + f.half) % f.half = 0 := by
      rw [← Nat.succ_mul, Nat.mul_mod_left]
    rw [units_eq_ite, hdiv, hmod]
    cases e with
    | zero => simp
    | succ e => simp [pow_succ]; ring

theorem units_of_le_half {m : Nat} (hm : m ≤ f.half) : f.units m = m := by
  simpa using units_mul_add 0 hm

theorem units_zero : f.units 0 = 0 :=
  units_of_le_half (Nat.zero_le _)

theorem units_succ (word : Nat) : f.units (word + 1) = f.units word + f.step word := by
  have hm : word % f.half < f.half := Nat.mod_lt _ half_pos
  have hword : word / f.half * f.half + word % f.half = word := Nat.div_add_mod' _ _
  have h := units_mul_add (word / f.half) hm.le
  have h' := units_mul_add (word / f.half) (Nat.succ_le_of_lt hm)
  rw [Nat.succ_eq_add_one, ← Nat.add_assoc, hword] at h'
  rw [hword] at h
  rw [h', h, step]
  ring

theorem units_strictMono : StrictMono f.units :=
  strictMono_nat_of_lt_succ fun word => by
    rw [units_succ]
    exact Nat.lt_add_of_pos_right (step_pos word)

theorem exists_units_eq_mul_step (hp : 0 < f.precision) (word : Nat) :
    ∃ m < 2 ^ f.precision, f.units word = m * f.step word := by
  have hm : word % f.half < f.half := Nat.mod_lt _ half_pos
  have h := units_mul_add (word / f.half) hm.le
  rw [Nat.div_add_mod'] at h
  refine ⟨_, ?_, h⟩
  rw [← two_mul_half hp]
  split <;> omega

/-- A step is at least the number it leads to, less `precision` bits. -/
theorem units_succ_le (hp : 0 < f.precision) (word : Nat) :
    f.units (word + 1) ≤ 2 ^ f.precision * f.step word := by
  obtain ⟨m, hm, hunits⟩ := exists_units_eq_mul_step hp word
  rw [units_succ, hunits, ← Nat.succ_mul]
  exact Nat.mul_le_mul_right _ hm

theorem exists_units_eq (hp : 0 < f.precision) {m : Nat} (hm : m < 2 ^ f.precision) (k : Nat) :
    ∃ word, f.units word = m * 2 ^ k := by
  rw [← two_mul_half hp] at hm
  induction k generalizing m with
  | zero =>
    obtain hle | hlt := Nat.le_total m f.half
    · exact ⟨m, by rw [units_of_le_half hle, pow_zero, Nat.mul_one]⟩
    · refine ⟨1 * f.half + (m - f.half), ?_⟩
      rw [units_mul_add 1 (by omega)]
      simp [Nat.add_sub_cancel' hlt]
  | succ k ih =>
    -- A significand with its leading bit takes the exponent; a shorter one is doubled first.
    obtain hlt | hle := Nat.lt_or_ge m f.half
    · obtain ⟨word, hword⟩ := ih (m := 2 * m) (by omega)
      exact ⟨word, by rw [hword, pow_succ]; ring⟩
    · refine ⟨(k + 2) * f.half + (m - f.half), ?_⟩
      rw [units_mul_add (k + 2) (by omega)]
      simp [Nat.add_sub_cancel' hle]

end WireSchema.BinaryFormat
