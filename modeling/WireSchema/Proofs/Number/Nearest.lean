import Mathlib.Algebra.Order.Field.Rat
import Mathlib.Algebra.Order.Group.Unbundled.Abs
import Mathlib.Algebra.Ring.Parity
import Mathlib.Tactic.FieldSimp
import Mathlib.Tactic.Linarith
import Mathlib.Tactic.Positivity
import WireSchema.Proofs.Number.Magnitude

namespace WireSchema

/-- At most `b`, and equal to it only under the condition `p`. -/
def LeIf {α : Type} [LT α] (p : Prop) (a b : α) : Prop := a < b ∨ a = b ∧ p

namespace LeIf

variable {p q : Prop}

section Order

variable {α : Type} [PartialOrder α] {a b c : α}

theorem le (h : LeIf p a b) : a ≤ b :=
  h.elim le_of_lt fun h => h.1.le

theorem trans_le (h : LeIf p a b) (hbc : b ≤ c) : LeIf p a c := by
  obtain hlt | ⟨rfl, hp⟩ := h
  · exact .inl (hlt.trans_le hbc)
  · exact hbc.lt_or_eq.imp_right (⟨·, hp⟩)

theorem of_le (hab : a ≤ b) (h : LeIf p b c) : LeIf p a c := by
  obtain hlt | ⟨rfl, hp⟩ := h
  · exact .inl (hab.trans_lt hlt)
  · exact hab.lt_or_eq.imp_right (⟨·, hp⟩)

theorem imp (hpq : p → q) (h : LeIf p a b) : LeIf q a b :=
  Or.imp_right (And.imp_right hpq) h

end Order

theorem of_add {a b c : Nat} (h : LeIf p (a + c) (b + c)) : LeIf p a b := by
  simpa only [LeIf, Nat.add_lt_add_iff_right, Nat.add_right_cancel_iff] using h

theorem mul_iff {a b c : ℚ} (hc : 0 < c) : LeIf p (a * c) (b * c) ↔ LeIf p a b := by
  rw [LeIf, mul_lt_mul_iff_left₀ hc, mul_left_inj' hc.ne', LeIf]

theorem cast_iff {a b : Nat} : LeIf p (a : ℚ) b ↔ LeIf p a b := by
  rw [LeIf, Nat.cast_lt, Nat.cast_inj, LeIf]

end LeIf

section Rounding

variable {num den : Nat}

theorem div_le_roundDiv : num / den ≤ roundDiv num den := by
  unfold roundDiv
  grind

theorem roundDiv_le : roundDiv num den ≤ num / den + 1 := by
  unfold roundDiv
  grind

/-- The rounded quotient is at most half too small or too great, and if by half then it is even. -/
theorem roundDiv_bounds (num : Nat) (hden : 0 < den) :
    LeIf (Even (roundDiv num den)) (2 * num) ((2 * roundDiv num den + 1) * den) ∧
      LeIf (Even (roundDiv num den)) (2 * roundDiv num den * den) (2 * num + den) := by
  have hnum : num = den * (num / den) + num % den := (Nat.div_add_mod _ _).symm
  have hmod : num % den < den := Nat.mod_lt _ hden
  unfold roundDiv
  generalize num / den = q at *
  generalize num % den = r at *
  subst hnum
  dsimp only
  split
  · exact ⟨.inl (by linarith), .inl (by linarith)⟩
  · split
    · exact ⟨.inl (by linarith), .inl (by linarith)⟩
    · have hr : 2 * r = den := by omega
      obtain hq | hq := Nat.mod_two_eq_zero_or_one q
      · rw [hq]
        exact ⟨.inr ⟨by linarith, Nat.even_iff.2 hq⟩, .inl (by linarith)⟩
      · rw [hq]
        exact ⟨.inl (by linarith), .inr ⟨by linarith, Nat.even_iff.2 (by omega)⟩⟩

end Rounding

namespace BinaryFormat

variable {f : BinaryFormat} {x : ℚ} {word : Nat}

def value (f : BinaryFormat) (word : Nat) : ℚ := f.units word / 2 ^ f.unitScale

def midpoint (f : BinaryFormat) (word : Nat) : ℚ := (f.value word + f.value (word + 1)) / 2

/-- The word of a number no other is nearer to, the even one of two that are as near. The word of
infinity counts as the number that would follow the greatest one. -/
def IsNearest (f : BinaryFormat) (x : ℚ) (word : Nat) : Prop :=
  word ≤ f.infinity ∧ ∀ other ≤ f.infinity, other ≠ word →
    LeIf (Even word) |x - f.value word| |x - f.value other|

/-- Between the midpoints to both neighbours, or on one of them if the word is even. -/
structure Between (f : BinaryFormat) (x : ℚ) (word : Nat) : Prop where
  le_infinity : word ≤ f.infinity
  above : ∀ v, v + 1 = word → LeIf (Even word) (f.midpoint v) x
  below : word < f.infinity → LeIf (Even word) x (f.midpoint word)

theorem value_strictMono : StrictMono f.value := by
  intro a b hab
  have hunits : (f.units a : ℚ) < f.units b := by exact_mod_cast units_strictMono hab
  exact div_lt_div_of_pos_right hunits (by positivity)

theorem midpoint_strictMono : StrictMono f.midpoint := by
  intro a b hab
  have hleft := f.value_strictMono hab
  have hright := f.value_strictMono (Nat.add_lt_add_right hab 1)
  simp only [midpoint]
  linarith

section Distance

variable {a b : ℚ} {p : Prop}

theorem sq_sub_sq_eq_mul (x a b : ℚ) :
    (x - b) ^ 2 - (x - a) ^ 2 = 2 * (b - a) * ((a + b) / 2 - x) := by
  ring

theorem nearer_left_iff (hab : a < b) :
    LeIf p |x - a| |x - b| ↔ LeIf p x ((a + b) / 2) := by
  have hpos : 0 < 2 * (b - a) := by linarith
  rw [LeIf, ← sq_lt_sq, ← sq_eq_sq_iff_abs_eq_abs, ← sub_pos, sq_sub_sq_eq_mul,
    mul_pos_iff_of_pos_left hpos, sub_pos, eq_comm, ← sub_eq_zero, sq_sub_sq_eq_mul,
    mul_eq_zero_iff_left hpos.ne', sub_eq_zero, eq_comm, LeIf]

theorem nearer_right_iff (hab : a < b) :
    LeIf p |x - b| |x - a| ↔ LeIf p ((a + b) / 2) x := by
  have hpos : 0 < 2 * (b - a) := by linarith
  rw [LeIf, ← sq_lt_sq, ← sq_eq_sq_iff_abs_eq_abs, ← sub_pos, ← neg_sub, sq_sub_sq_eq_mul,
    ← mul_neg, neg_sub, mul_pos_iff_of_pos_left hpos, sub_pos, ← sub_eq_zero, sq_sub_sq_eq_mul,
    mul_eq_zero_iff_left hpos.ne', sub_eq_zero, LeIf]

end Distance

theorem isNearest_iff_between : f.IsNearest x word ↔ f.Between x word := by
  constructor
  · rintro ⟨hle, h⟩
    refine ⟨hle, ?_, ?_⟩
    · rintro v rfl
      exact (nearer_right_iff (value_strictMono v.lt_succ_self)).1 (h v (by omega) (by omega))
    · intro hlt
      exact (nearer_left_iff (value_strictMono word.lt_succ_self)).1 (h (word + 1) hlt (by omega))
  · -- The midpoint to any other word is at most, or at least, the one to the neighbour on its side.
    rintro ⟨hle, habove, hbelow⟩
    refine ⟨hle, fun other hother hne => ?_⟩
    obtain hlt | hlt := Nat.lt_or_gt_of_ne hne
    · obtain ⟨v, rfl⟩ : ∃ v, word = v + 1 := ⟨word - 1, by omega⟩
      have hv : f.value other ≤ f.value v := value_strictMono.monotone (by omega)
      rw [nearer_right_iff (value_strictMono hlt)]
      exact .of_le (by rw [midpoint]; linarith) (habove v rfl)
    · have hv : f.value (word + 1) ≤ f.value other := value_strictMono.monotone hlt
      rw [nearer_left_iff (value_strictMono hlt)]
      exact (hbelow (hlt.trans_le hother)).trans_le (by rw [midpoint]; linarith)

theorem between_zero : f.Between 0 0 := by
  have hvalue : f.value 0 = 0 := by rw [value, units_zero, Nat.cast_zero, zero_div]
  have hpos : f.value 0 < f.value 1 := value_strictMono Nat.zero_lt_one
  refine ⟨Nat.zero_le _, fun v hv => absurd hv (Nat.succ_ne_zero v), fun _ => .inl ?_⟩
  rw [midpoint]
  linarith

theorem Between.not_lt {v : Nat} (hv : f.Between x v) (hword : f.Between x word) : ¬ v < word := by
  intro hlt
  obtain ⟨u, rfl⟩ : ∃ u, word = u + 1 := ⟨word - 1, by omega⟩
  have hmid : f.midpoint v ≤ f.midpoint u := midpoint_strictMono.monotone (by omega)
  have habove := hword.above u rfl
  have hbelow := hv.below (hlt.trans_le hword.le_infinity)
  obtain habove | ⟨rfl, heven⟩ := habove
  · linarith [hbelow.le]
  obtain hbelow | ⟨hbelow, heven'⟩ := hbelow
  · linarith
  -- Two neighbours are not both even.
  obtain rfl : u = v := midpoint_strictMono.injective hbelow
  exact Nat.even_add_one.1 heven heven'

theorem Between.unique {v : Nat} (hv : f.Between x v) (hword : f.Between x word) : v = word :=
  Nat.le_antisymm (Nat.le_of_not_lt (hword.not_lt hv)) (Nat.le_of_not_lt (hv.not_lt hword))

section OfUnits

variable {num den : Nat}

def shift (f : BinaryFormat) (num den : Nat) : Nat := (num / den).log2 + 1 - f.precision

def roundUnits (f : BinaryFormat) (num den : Nat) : Nat :=
  f.shift num den * f.half + roundDiv num (den * 2 ^ f.shift num den)

theorem ofUnits_eq_min : f.ofUnits num den = min f.infinity (f.roundUnits num den) := rfl

theorem lt_of_shift (hp : 0 < f.precision) (hden : 0 < den) :
    num < 2 * f.half * (den * 2 ^ f.shift num den) := by
  have hlog : num / den < 2 ^ ((num / den).log2 + 1) := Nat.lt_log2_self
  have hpow : 2 ^ ((num / den).log2 + 1) ≤ 2 ^ (f.precision + f.shift num den) :=
    Nat.pow_le_pow_right (by decide) (by rw [shift]; omega)
  have := (Nat.div_lt_iff_lt_mul hden).1 (hlog.trans_le hpow)
  rw [two_mul_half hp]
  calc num < 2 ^ (f.precision + f.shift num den) * den := this
    _ = 2 ^ f.precision * (den * 2 ^ f.shift num den) := by rw [pow_add]; ring

theorem le_of_shift (hp : 0 < f.precision) (hshift : 0 < f.shift num den) :
    f.half * (den * 2 ^ f.shift num den) ≤ num := by
  rw [shift] at hshift
  have hne : num / den ≠ 0 := by
    intro hzero
    rw [hzero, Nat.log2_zero] at hshift
    omega
  have hexp : f.precision - 1 + f.shift num den = (num / den).log2 := by
    rw [shift]
    omega
  calc f.half * (den * 2 ^ f.shift num den) = 2 ^ (num / den).log2 * den := by
        rw [half, ← hexp, pow_add]
        ring
    _ ≤ num / den * den := Nat.mul_le_mul_right _ (Nat.log2_self_le hne)
    _ ≤ num := Nat.div_mul_le_self _ _

theorem half_le_roundDiv (hp : 0 < f.precision) (hden : 0 < den) (hshift : 0 < f.shift num den) :
    f.half ≤ roundDiv num (den * 2 ^ f.shift num den) :=
  ((Nat.le_div_iff_mul_le (by positivity)).2 (le_of_shift hp hshift)).trans div_le_roundDiv

theorem units_roundUnits (hp : 0 < f.precision) (hden : 0 < den) :
    f.units (f.roundUnits num den) =
      roundDiv num (den * 2 ^ f.shift num den) * 2 ^ f.shift num den := by
  have hle : roundDiv num (den * 2 ^ f.shift num den) ≤ 2 * f.half :=
    roundDiv_le.trans ((Nat.div_lt_iff_lt_mul (by positivity)).2 (lt_of_shift hp hden))
  have hhalf : 0 < f.shift num den → f.half ≤ roundDiv num (den * 2 ^ f.shift num den) :=
    half_le_roundDiv hp hden
  rw [roundUnits]
  generalize roundDiv num (den * 2 ^ f.shift num den) = r at *
  obtain hr | hr := Nat.lt_or_ge r f.half
  · -- Only without a shift does the significand lack its leading bit.
    have hzero : f.shift num den = 0 := by
      by_contra hne
      exact (hhalf (Nat.pos_of_ne_zero hne)).not_gt hr
    rw [hzero, Nat.zero_mul, Nat.zero_add, units_of_le_half hr.le, pow_zero, Nat.mul_one]
  · have hword : f.shift num den * f.half + r =
        (f.shift num den + 1) * f.half + (r - f.half) := by
      rw [Nat.succ_mul]
      omega
    rw [hword, units_mul_add _ (by omega)]
    simp [Nat.add_sub_cancel' hr]

theorem pow_le_step {k : Nat} (h : 0 < k → k * f.half + f.half ≤ word) : 2 ^ k ≤ f.step word := by
  obtain rfl | hpos := Nat.eq_zero_or_pos k
  · exact step_pos word
  · have hle : k + 1 ≤ word / f.half :=
      (Nat.le_div_iff_mul_le half_pos).2 (by rw [Nat.succ_mul]; exact h hpos)
    exact Nat.pow_le_pow_right (by decide) (Nat.le_sub_one_of_lt hle)

theorem even_roundUnits (hp : 2 ≤ f.precision)
    (heven : Even (roundDiv num (den * 2 ^ f.shift num den))) : Even (f.roundUnits num den) := by
  have hhalf : Even f.half := Nat.even_pow.2 ⟨even_two, by omega⟩
  exact (hhalf.mul_left _).add heven

theorem roundUnits_below (hp : 2 ≤ f.precision) (hden : 0 < den) :
    LeIf (Even (f.roundUnits num den)) (2 * num)
      ((f.units (f.roundUnits num den) + f.units (f.roundUnits num den + 1)) * den) := by
  have hp' : 0 < f.precision := by omega
  have hstep : 2 ^ f.shift num den ≤ f.step (f.roundUnits num den) :=
    pow_le_step fun hpos => Nat.add_le_add_left (half_le_roundDiv hp' hden hpos) _
  have hround := (roundDiv_bounds num (Nat.mul_pos hden (Nat.two_pow_pos (f.shift num den)))).1
  refine (hround.imp (even_roundUnits hp)).trans_le ?_
  rw [units_succ, units_roundUnits hp' hden]
  nlinarith

theorem roundUnits_above (hp : 2 ≤ f.precision) (hden : 0 < den) {v : Nat}
    (hv : v + 1 = f.roundUnits num den) :
    LeIf (Even (f.roundUnits num den))
      ((f.units v + f.units (f.roundUnits num den)) * den) (2 * num) := by
  have hp' : 0 < f.precision := by omega
  have hround := (roundDiv_bounds num (Nat.mul_pos hden (Nat.two_pow_pos (f.shift num den)))).2
  have hunits : f.units v + f.step v =
      roundDiv num (den * 2 ^ f.shift num den) * 2 ^ f.shift num den := by
    rw [← units_succ, hv, units_roundUnits hp' hden]
  rw [units_roundUnits hp' hden]
  by_cases hstep : 2 ^ f.shift num den ≤ f.step v
  · refine LeIf.of_add (LeIf.of_le ?_ (hround.imp (even_roundUnits hp)))
    nlinarith
  · -- The step before is shorter only if the significand is least, and such a one is rounded down.
    obtain ⟨hpos, hlt⟩ : 0 < f.shift num den ∧ v < f.shift num den * f.half + f.half := by
      by_contra hcon
      exact hstep (pow_le_step fun hpos => Nat.le_of_not_lt fun hlt => hcon ⟨hpos, hlt⟩)
    have hle : roundDiv num (den * 2 ^ f.shift num den) ≤ f.half := by
      rw [roundUnits] at hv
      omega
    have hlt : f.units v < roundDiv num (den * 2 ^ f.shift num den) * 2 ^ f.shift num den := by
      rw [← hunits]
      exact Nat.lt_add_of_pos_right (step_pos v)
    left
    generalize roundDiv num (den * 2 ^ f.shift num den) = r at *
    calc (f.units v + r * 2 ^ f.shift num den) * den
        < (r * 2 ^ f.shift num den + r * 2 ^ f.shift num den) * den :=
          Nat.mul_lt_mul_of_pos_right (Nat.add_lt_add_right hlt _) hden
      _ = 2 * (r * (den * 2 ^ f.shift num den)) := by ring
      _ ≤ 2 * (f.half * (den * 2 ^ f.shift num den)) :=
          Nat.mul_le_mul_left _ (Nat.mul_le_mul_right _ hle)
      _ ≤ 2 * num := Nat.mul_le_mul_left _ (le_of_shift hp' hpos)

end OfUnits

/-- Compares a midpoint in whole numbers, for a number given as a ratio in units. -/
theorem midpoint_mul (v den : Nat) :
    f.midpoint v * (2 * den * 2 ^ f.unitScale) = ((f.units v + f.units (v + 1)) * den : Nat) := by
  rw [midpoint, value, value]
  push_cast
  field_simp

theorem between_ofUnits (hp : 2 ≤ f.precision) {num den : Nat} (hden : 0 < den)
    (hx : x * (den * 2 ^ f.unitScale) = num) : f.Between x (f.ofUnits num den) := by
  have hscale : (0 : ℚ) < 2 * den * 2 ^ f.unitScale := by positivity
  have hx' : x * (2 * den * 2 ^ f.unitScale) = (2 * num : Nat) := by
    push_cast
    rw [← hx]
    ring
  have habove : ∀ v, v + 1 = f.roundUnits num den →
      LeIf (Even (f.roundUnits num den)) (f.midpoint v) x := by
    intro v hv
    rw [← LeIf.mul_iff hscale, midpoint_mul, hx', hv, LeIf.cast_iff]
    exact roundUnits_above hp hden hv
  have hbelow : LeIf (Even (f.roundUnits num den)) x (f.midpoint (f.roundUnits num den)) := by
    rw [← LeIf.mul_iff hscale, midpoint_mul, hx', LeIf.cast_iff]
    exact roundUnits_below hp hden
  rw [ofUnits_eq_min]
  obtain hlt | hle := Nat.lt_or_ge f.infinity (f.roundUnits num den)
  · -- Past infinity even the midpoint before the rounded word is above those before infinity.
    rw [Nat.min_eq_left hlt.le]
    obtain ⟨w, hw⟩ : ∃ w, w + 1 = f.roundUnits num den := ⟨f.roundUnits num den - 1, by omega⟩
    refine ⟨le_rfl, ?_, fun h => absurd h (Nat.lt_irrefl _)⟩
    intro v hv
    have hmid : f.midpoint v < f.midpoint w := midpoint_strictMono (by omega)
    exact .inl (hmid.trans_le (habove w hw).le)
  · rw [Nat.min_eq_right hle]
    exact ⟨hle, habove, fun _ => hbelow⟩

theorem between_ofRatio (hp : 2 ≤ f.precision) {num den : Nat} (hden : 0 < den)
    (hx : x * den = num) : f.Between x (f.ofRatio num den) := by
  refine between_ofUnits hp hden ?_
  rw [← mul_assoc, hx, Nat.pow_eq]
  push_cast
  rfl

theorem exists_between (hp : 2 ≤ f.precision) (hx : 0 ≤ x) : ∃ word, f.Between x word := by
  have hnum : x * x.den = x.num.toNat := by
    rw [Rat.mul_den_eq_num]
    exact_mod_cast (Int.toNat_of_nonneg (Rat.num_nonneg.2 hx)).symm
  exact ⟨_, between_ofRatio hp x.den_pos hnum⟩

end BinaryFormat

end WireSchema
