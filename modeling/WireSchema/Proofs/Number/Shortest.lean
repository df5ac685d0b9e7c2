import Mathlib.Data.Nat.Digits.Defs
import WireSchema.Number.Decimal
import WireSchema.Proofs.Number.Nearest

namespace WireSchema.Decimal

open BinaryFormat (midpoint)

variable {f : BinaryFormat} {d : Decimal} {v : Nat}

def value (d : Decimal) : ℚ := d.coefficient * 10 ^ d.exponent

theorem value_nonneg (d : Decimal) : 0 ≤ d.value :=
  mul_nonneg (Nat.cast_nonneg _) (zpow_nonneg (by norm_num) _)

theorem zpow_mul_toNat (e : Int) : (10 : ℚ) ^ e * 10 ^ (-e).toNat = 10 ^ e.toNat := by
  obtain ⟨n, rfl | rfl⟩ := e.eq_nat_or_neg
  · simp
  · simp

theorem value_mul (d : Decimal) :
    d.value * (10 ^ (-d.exponent).toNat : Nat) = (d.coefficient * 10 ^ d.exponent.toNat : Nat) := by
  push_cast
  rw [value, mul_assoc, zpow_mul_toNat]

theorem leIf_even_iff {word a b : Nat} :
    LeIf (Even word) a b ↔ if word % 2 = 0 then a ≤ b else a < b := by
  rw [LeIf, Nat.even_iff]
  split <;> omega

theorem readsAs_succ_iff : readsAs f (v + 1) d ↔
    LeIf (Even (v + 1)) (f.midpoint v) d.value ∧
      LeIf (Even (v + 1)) d.value (f.midpoint (v + 1)) := by
  have hscale : (0 : ℚ) < 2 * (10 ^ (-d.exponent).toNat : Nat) * 2 ^ f.unitScale := by positivity
  have hvalue : d.value * (2 * (10 ^ (-d.exponent).toNat : Nat) * 2 ^ f.unitScale) =
      (d.coefficient * 10 ^ d.exponent.toNat * 2 ^ (f.unitScale + 1) : Nat) := by
    have h := value_mul d
    push_cast at h ⊢
    rw [← h]
    ring
  have hmid (w : Nat) := f.midpoint_mul w (10 ^ (-d.exponent).toNat)
  rw [← LeIf.mul_iff hscale, hmid, hvalue, LeIf.cast_iff, leIf_even_iff,
    ← LeIf.mul_iff (b := f.midpoint _) hscale, hmid, hvalue, LeIf.cast_iff, leIf_even_iff, readsAs]
  by_cases heven : (v + 1) % 2 = 0 <;> simp [heven]

theorem between_of_readsAs (hle : v + 1 ≤ f.infinity) (h : readsAs f (v + 1) d) :
    f.Between d.value (v + 1) := by
  obtain ⟨habove, hbelow⟩ := readsAs_succ_iff.1 h
  refine ⟨hle, ?_, fun _ => hbelow⟩
  intro w hw
  cases hw
  exact habove

section Near

theorem midpoint_eq_add (w : Nat) :
    f.midpoint w = f.value w + f.step w / 2 / 2 ^ f.unitScale := by
  rw [BinaryFormat.midpoint, BinaryFormat.value, BinaryFormat.value, BinaryFormat.units_succ]
  push_cast
  ring

theorem midpoint_eq_sub (w : Nat) :
    f.midpoint w = f.value (w + 1) - f.step w / 2 / 2 ^ f.unitScale := by
  rw [BinaryFormat.midpoint, BinaryFormat.value, BinaryFormat.value, BinaryFormat.units_succ]
  push_cast
  ring

theorem value_succ_le (hp : 0 < f.precision) (w : Nat) :
    f.value (w + 1) ≤ f.step w / 2 / 2 ^ f.unitScale * 2 ^ (f.precision + 1) := by
  have h : (f.units (w + 1) : ℚ) ≤ 2 ^ f.precision * f.step w := by
    exact_mod_cast BinaryFormat.units_succ_le hp w
  rw [BinaryFormat.value, div_le_iff₀ (by positivity)]
  calc (f.units (w + 1) : ℚ) ≤ 2 ^ f.precision * f.step w := h
    _ = _ := by
      rw [pow_succ]
      field_simp

/-- What differs from a number by less than its last bit is read as it. -/
theorem readsAs_of_near (hp : 0 < f.precision)
    (hnear : |d.value - f.value (v + 1)| * 2 ^ (f.precision + 1) < f.value (v + 1)) :
    readsAs f (v + 1) d := by
  have hpow : (0 : ℚ) < 2 ^ (f.precision + 1) := by positivity
  have hbelow := lt_of_mul_lt_mul_right (hnear.trans_le (value_succ_le hp v)) hpow.le
  have hle : f.value (v + 1) ≤ f.value (v + 2) := f.value_strictMono.monotone (by omega)
  have habove := lt_of_mul_lt_mul_right
    (hnear.trans_le (hle.trans (value_succ_le hp (v + 1)))) hpow.le
  rw [abs_lt] at hbelow habove
  rw [readsAs_succ_iff, midpoint_eq_sub, midpoint_eq_add]
  exact ⟨.inl (by linarith), .inl (by linarith)⟩

end Near

section Places

theorem lt_pow_digitCount (n : Nat) : n < 10 ^ digitCount n :=
  (Nat.length_toDigits_le_iff (by decide) Nat.length_toDigits_pos).1 le_rfl

theorem pow_digitCount_le {n : Nat} (hn : 0 < n) : 10 ^ digitCount n ≤ 10 * n := by
  have hpos : 0 < digitCount n := Nat.length_toDigits_pos
  obtain ⟨k, hk⟩ : ∃ k, digitCount n = k + 1 := ⟨digitCount n - 1, by omega⟩
  rw [hk, pow_succ']
  refine Nat.mul_le_mul_left _ ?_
  obtain rfl | hk' := Nat.eq_zero_or_pos k
  · exact hn
  · by_contra hlt
    have := (Nat.length_toDigits_le_iff (b := 10) (by decide) hk').2 (Nat.lt_of_not_le hlt)
    rw [← digitCount] at this
    omega

theorem zpow_placesOfRatio_le {num den : Nat} (hnum : 0 < num) :
    (10 : ℚ) ^ (placesOfRatio num den - 1) * den ≤ num := by
  rw [placesOfRatio]
  generalize hguess : (digitCount num : Int) - digitCount den = guess
  split
  next hle =>
    rw [Int.add_sub_cancel]
    have hle' : (den : ℚ) * 10 ^ guess.toNat ≤ num * 10 ^ (-guess).toNat := by exact_mod_cast hle
    rw [← zpow_mul_toNat, ← mul_assoc] at hle'
    have := le_of_mul_le_mul_right hle' (by positivity)
    linarith
  · have hnum' : (10 : ℚ) ^ digitCount num ≤ 10 * num := by exact_mod_cast pow_digitCount_le hnum
    have hden' : (den : ℚ) ≤ 10 ^ digitCount den := by exact_mod_cast (lt_pow_digitCount den).le
    rw [← hguess, zpow_sub₀ (by norm_num), zpow_sub₀ (by norm_num), zpow_natCast, zpow_natCast,
      zpow_one]
    calc (10 : ℚ) ^ digitCount num / 10 ^ digitCount den / 10 * den
        ≤ 10 ^ digitCount num / 10 ^ digitCount den / 10 * 10 ^ digitCount den := by gcongr
      _ = 10 ^ digitCount num / 10 := by field_simp
      _ ≤ num := by linarith

end Places

section Candidates

def lastPlace (f : BinaryFormat) (word n : Nat) : Int :=
  placesOfRatio (f.units word) (2 ^ f.unitScale) - n

/-- The number of a word is `scaledNum / scaledDen` in its last place. -/
def scaledNum (f : BinaryFormat) (word n : Nat) : Nat :=
  f.units word * 10 ^ (-lastPlace f word n).toNat

def scaledDen (f : BinaryFormat) (word n : Nat) : Nat :=
  2 ^ f.unitScale * 10 ^ (lastPlace f word n).toNat

theorem scaledDen_pos (word n : Nat) : 0 < scaledDen f word n := by
  rw [scaledDen]
  positivity

theorem value_mul_scaledDen (word n : Nat) :
    f.value word * scaledDen f word n = scaledNum f word n * 10 ^ lastPlace f word n := by
  rw [BinaryFormat.value, scaledDen, scaledNum]
  push_cast
  rw [← zpow_mul_toNat (lastPlace f word n)]
  field_simp

def candidate (f : BinaryFormat) (word n above : Nat) : Decimal :=
  ⟨scaledNum f word n / scaledDen f word n + above, lastPlace f word n⟩

theorem readsAs_of_ofDigits? {word n : Nat} (h : ofDigits? f word n = some d) :
    readsAs f word d := by
  rw [ofDigits?] at h
  split at h
  next hbelow habove =>
    split at h
    · cases h
      exact hbelow
    · cases h
      exact habove
  next hbelow _ =>
    cases h
    exact hbelow
  next _ habove =>
    cases h
    exact habove
  next => cases h

theorem ofDigits?_isSome_of_readsAs {word n : Nat}
    (h : readsAs f word (candidate f word n 0) ∨ readsAs f word (candidate f word n 1)) :
    (ofDigits? f word n).isSome := by
  rw [ofDigits?]
  split
  · split <;> rfl
  · rfl
  · rfl
  next hbelow habove =>
    obtain h | h := h
    · exact absurd h (Bool.eq_false_iff.1 hbelow)
    · exact absurd h (Bool.eq_false_iff.1 habove)

theorem exists_value_eq (word n : Nat) : ∃ t : ℚ, 0 ≤ t ∧ t < 1 ∧ f.value word =
    ((scaledNum f word n / scaledDen f word n : Nat) + t) * 10 ^ lastPlace f word n := by
  have hden : (0 : ℚ) < scaledDen f word n := by exact_mod_cast scaledDen_pos word n
  have hmod : ((scaledNum f word n % scaledDen f word n : Nat) : ℚ) < scaledDen f word n := by
    exact_mod_cast Nat.mod_lt _ (scaledDen_pos word n)
  have hdiv : (scaledNum f word n : ℚ) =
      scaledDen f word n * (scaledNum f word n / scaledDen f word n : Nat) +
        (scaledNum f word n % scaledDen f word n : Nat) := by
    exact_mod_cast (Nat.div_add_mod _ _).symm
  refine ⟨(scaledNum f word n % scaledDen f word n : Nat) / scaledDen f word n, by positivity,
    (div_lt_one hden).2 hmod, mul_right_cancel₀ hden.ne' ?_⟩
  rw [value_mul_scaledDen, hdiv]
  field_simp

theorem abs_candidate_sub_le (word n : Nat) : ∃ above, (above = 0 ∨ above = 1) ∧
    |(candidate f word n above).value - f.value word| ≤ 10 ^ lastPlace f word n / 2 := by
  obtain ⟨t, ht, ht', hvalue⟩ := exists_value_eq (f := f) word n
  have hplace : (0 : ℚ) < 10 ^ lastPlace f word n := zpow_pos (by norm_num) _
  obtain hle | hle := le_total t (1 / 2)
  · refine ⟨0, .inl rfl, ?_⟩
    rw [hvalue, value, candidate, abs_le]
    push_cast
    constructor <;> nlinarith
  · refine ⟨1, .inr rfl, ?_⟩
    rw [hvalue, value, candidate, abs_le]
    push_cast
    constructor <;> nlinarith

/-- Half of the seventeenth place is less than the last bit of a number of so few bits. -/
theorem ofDigits?_isSome (hp : 0 < f.precision) (hdigits : 2 ^ f.precision < 10 ^ 16) (v : Nat) :
    (ofDigits? f (v + 1) 17).isSome := by
  have hunits : 0 < f.units (v + 1) := by
    rw [f.units_succ]
    exact Nat.add_pos_right _ (f.step_pos v)
  have hplace : (0 : ℚ) < 10 ^ lastPlace f (v + 1) 17 := zpow_pos (by norm_num) _
  have hvalue : (10 : ℚ) ^ lastPlace f (v + 1) 17 * 10 ^ 16 ≤ f.value (v + 1) := by
    have hplaces : lastPlace f (v + 1) 17 + (16 : Nat) =
        placesOfRatio (f.units (v + 1)) (2 ^ f.unitScale) - 1 := by
      rw [lastPlace]
      omega
    rw [BinaryFormat.value, le_div_iff₀ (by positivity), ← zpow_natCast, ← zpow_add₀ (by norm_num),
      hplaces]
    exact_mod_cast zpow_placesOfRatio_le hunits
  have hdigits' : (2 : ℚ) ^ f.precision < 10 ^ 16 := by exact_mod_cast hdigits
  obtain ⟨above, habove, hnear⟩ := abs_candidate_sub_le (f := f) (v + 1) 17
  have hreads : readsAs f (v + 1) (candidate f (v + 1) 17 above) := by
    refine readsAs_of_near hp ?_
    calc _ ≤ (10 : ℚ) ^ lastPlace f (v + 1) 17 / 2 * 2 ^ (f.precision + 1) := by gcongr
      _ = 10 ^ lastPlace f (v + 1) 17 * 2 ^ f.precision := by ring
      _ < 10 ^ lastPlace f (v + 1) 17 * 10 ^ 16 := by gcongr
      _ ≤ f.value (v + 1) := hvalue
  obtain rfl | rfl := habove
  · exact ofDigits?_isSome_of_readsAs (.inl hreads)
  · exact ofDigits?_isSome_of_readsAs (.inr hreads)

end Candidates

theorem readsAs_shortest (hp : 0 < f.precision) (hdigits : 2 ^ f.precision < 10 ^ 16) (v : Nat) :
    readsAs f (v + 1) (shortest f (v + 1)) := by
  have hsome : ((List.range 17).findSome? fun n => ofDigits? f (v + 1) (n + 1)).isSome := by
    rw [List.findSome?_isSome_iff]
    exact ⟨16, by simp, ofDigits?_isSome hp hdigits v⟩
  obtain ⟨d, hd⟩ := Option.isSome_iff_exists.1 hsome
  obtain ⟨n, -, hn⟩ := List.exists_of_findSome?_eq_some hd
  rw [shortest, hd, Option.getD_some]
  exact readsAs_of_ofDigits? hn

end WireSchema.Decimal
