import WireSchema.Proofs.Number.Nearest

namespace WireSchema.BinaryFormat

variable {f g : BinaryFormat} {x y : ℚ} {k m n word : Nat}

/-- `x` is the middle between two numbers, and `y` is on the side of the odd one. -/
def Strays (f : BinaryFormat) (x y : ℚ) : Prop :=
  ∃ k < f.infinity, x = f.midpoint k ∧ (Even k ∧ x < y ∨ ¬ Even k ∧ y < x)

/-- `y` is on the side of every midpoint that `x` is on. -/
def SameSide (f : BinaryFormat) (x y : ℚ) : Prop :=
  ∀ k, (x < f.midpoint k → y < f.midpoint k) ∧ (f.midpoint k < x → f.midpoint k < y)

theorem between_midpoint_of_even (hk : k < f.infinity) (heven : Even k) :
    f.Between (f.midpoint k) k := by
  refine ⟨hk.le, ?_, fun _ => .inr ⟨rfl, heven⟩⟩
  rintro v rfl
  exact .inl (midpoint_strictMono v.lt_succ_self)

theorem between_midpoint_of_odd (hk : k < f.infinity) (hodd : ¬ Even k) :
    f.Between (f.midpoint k) (k + 1) := by
  refine ⟨hk, ?_, fun _ => .inl (midpoint_strictMono k.lt_succ_self)⟩
  intro v hv
  cases hv
  exact .inr ⟨rfl, Nat.even_add_one.2 hodd⟩

theorem ne_of_strays (hstrays : f.Strays x y) (hx : f.Between x m) (hy : f.Between y n) :
    m ≠ n := by
  rintro rfl
  obtain ⟨k, hk, rfl, ⟨heven, hlt⟩ | ⟨hodd, hlt⟩⟩ := hstrays
  · obtain rfl := hx.unique (between_midpoint_of_even hk heven)
    exact (hy.below hk).le.not_gt hlt
  · obtain rfl := hx.unique (between_midpoint_of_odd hk hodd)
    exact (hy.above k rfl).le.not_gt hlt

theorem between_of_not_strays (hside : f.SameSide x y) (hstrays : ¬ f.Strays x y)
    (hx : f.Between x m) : f.Between y m := by
  refine ⟨hx.le_infinity, ?_, ?_⟩
  · rintro v rfl
    obtain hlt | ⟨rfl, heven⟩ := hx.above v rfl
    · exact .inl ((hside v).2 hlt)
    · have hle : f.midpoint v ≤ y := by
        by_contra hlt
        exact hstrays ⟨v, hx.le_infinity, rfl, .inr ⟨Nat.even_add_one.1 heven, lt_of_not_ge hlt⟩⟩
      exact hle.lt_or_eq.imp_right (⟨·, heven⟩)
  · intro hm
    obtain hlt | ⟨rfl, heven⟩ := hx.below hm
    · exact .inl ((hside m).1 hlt)
    · have hle : y ≤ f.midpoint m := by
        by_contra hlt
        exact hstrays ⟨m, hm, rfl, .inl ⟨heven, lt_of_not_ge hlt⟩⟩
      exact hle.lt_or_eq.imp_right (⟨·, heven⟩)

theorem eq_iff_not_strays (hside : f.SameSide x y) (hx : f.Between x m) (hy : f.Between y n) :
    m = n ↔ ¬ f.Strays x y := by
  constructor
  · intro heq hstrays
    exact ne_of_strays hstrays hx hy heq
  · intro hstrays
    exact (between_of_not_strays hside hstrays hx).unique hy

theorem exists_value_eq_midpoint (hp : 0 < f.precision) (hprecision : f.precision < g.precision)
    (hscale : f.unitScale < g.unitScale) (k : Nat) : ∃ word, g.value word = f.midpoint k := by
  obtain ⟨m, hm, hunits⟩ := exists_units_eq_mul_step hp k
  have hbits : 2 * m + 1 < 2 ^ g.precision := by
    have hpow : 2 ^ (f.precision + 1) ≤ 2 ^ g.precision :=
      Nat.pow_le_pow_right (by decide) hprecision
    rw [pow_succ] at hpow
    omega
  obtain ⟨word, hword⟩ := exists_units_eq (hp.trans hprecision) hbits
    (k / f.half - 1 + (g.unitScale - f.unitScale - 1))
  refine ⟨word, ?_⟩
  have hexp : g.unitScale = f.unitScale + 1 + (g.unitScale - f.unitScale - 1) := by omega
  rw [midpoint, value, value, value, units_succ, hunits, hword]
  nth_rewrite 2 [hexp]
  rw [step]
  push_cast
  rw [pow_add, pow_add]
  field_simp
  ring

/-- What is read as a number is on the side of every other number that it is on itself. -/
theorem sameSide_of_between (hmid : ∀ k, ∃ word, g.value word = f.midpoint k)
    (hword : word < g.infinity) (hy : g.Between y word) : f.SameSide (g.value word) y := by
  intro k
  obtain ⟨w, hw⟩ := hmid k
  rw [← hw]
  constructor
  · intro hlt
    have hle : g.value (word + 1) ≤ g.value w :=
      value_strictMono.monotone (value_strictMono.lt_iff_lt.1 hlt)
    have hbelow := (hy.below hword).le
    rw [midpoint] at hbelow
    linarith
  · intro hlt
    have hlt' : w < word := value_strictMono.lt_iff_lt.1 hlt
    obtain ⟨v, rfl⟩ : ∃ v, word = v + 1 := ⟨word - 1, by omega⟩
    have hle : g.value w ≤ g.value v := value_strictMono.monotone (by omega)
    have habove := (hy.above v rfl).le
    rw [midpoint] at habove
    linarith

theorem convert_of_finite (hne : f ≠ g) (hfinite : f.magnitude word < f.infinity) :
    f.convert g word =
      g.withSign (f.negative word) (g.ofRatio (f.units (f.magnitude word)) (2 ^ f.unitScale)) := by
  have hNaN : f.isNaN word = false := decide_eq_false hfinite.not_gt
  have hfinite' : f.isFinite word = true := decide_eq_true hfinite
  rw [convert, if_neg hne, hNaN, hfinite']
  rfl

theorem between_ofRatio_units (hp : 2 ≤ g.precision) (word : Nat) :
    g.Between (f.value word) (g.ofRatio (f.units word) (2 ^ f.unitScale)) := by
  refine between_ofRatio hp (Nat.two_pow_pos _) ?_
  rw [value]
  push_cast
  field_simp

end WireSchema.BinaryFormat
