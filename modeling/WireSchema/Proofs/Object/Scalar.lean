import Mathlib.Algebra.Order.Ring.Nat
import WireSchema.Object.Basic

namespace WireSchema

theorem Primitive.width_pos (t : Primitive) : 0 < t.width := by
  cases t <;> decide

namespace Scalar

theorem type_of_ofInt? {t : Primitive} {n : Int} {s : Scalar} (h : ofInt? t n = some s) :
    s.type = t := by
  rw [ofInt?] at h
  split at h
  · cases h; rfl
  · cases h

theorem inRange_iff {t : Primitive} {n : Int} : t.inRange n ↔ t.isFloat = false ∧
    if t.isSigned then -2 ^ (8 * t.width - 1) ≤ n ∧ n < 2 ^ (8 * t.width - 1)
    else 0 ≤ n ∧ n < 2 ^ (8 * t.width) := by
  cases t <;> simp [Primitive.inRange, Primitive.range?, Primitive.isFloat, Primitive.format?,
    Primitive.isSigned, Primitive.width] <;> omega

theorem ofInt?_toInt? {s : Scalar} {n : Int} (h : s.toInt? = some n) :
    ofInt? s.type n = some s := by
  obtain ⟨t, word⟩ := s
  rw [toInt?] at h
  split at h
  next => cases h
  next hf =>
    simp only [Bool.not_eq_true] at hf
    split at h
    next hs =>
      cases h
      have hr : t.inRange word.toInt :=
        inRange_iff.2 ⟨hf, by simpa [hs] using ⟨BitVec.le_toInt word, BitVec.toInt_lt⟩⟩
      simp [ofInt?, hr]
    next hs =>
      cases h
      have hlt : (word.toNat : Int) < 2 ^ (8 * t.width) := by exact_mod_cast word.isLt
      have hr : t.inRange word.toNat := inRange_iff.2 ⟨hf, by simp [hs, hlt]⟩
      simp [ofInt?, hr]

theorem toInt?_ofInt? {t : Primitive} {n : Int} {s : Scalar} (h : ofInt? t n = some s) :
    s.toInt? = some n := by
  rw [ofInt?] at h
  split at h
  next hr =>
    cases h
    obtain ⟨hf, hr⟩ := inRange_iff.1 hr
    have hw := t.width_pos
    simp only [toInt?, hf]
    split at hr
    next hs =>
      rw [BitVec.toInt_ofInt_eq_self (by omega) hr.1 hr.2]
      simp [hs]
    next hs =>
      have hn : (n % 2 ^ (8 * t.width)).toNat = n := by
        rw [Int.emod_eq_of_lt hr.1 hr.2]
        omega
      simpa [hs, BitVec.toNat_ofInt] using hn
  next => cases h

theorem type_of_ofLiteral? {t : Primitive} {l : Literal} {s : Scalar}
    (h : ofLiteral? t l = some s) : s.type = t := by
  rw [ofLiteral?] at h
  split at h
  next => cases h; rfl
  next =>
    obtain ⟨n, -, h⟩ := Option.bind_eq_some_iff.1 h
    exact type_of_ofInt? h

theorem exists_ofLiteral? {t : Primitive} {text : String} {l : Literal}
    (h : Literal.readAs? t text = some l) : ∃ s, ofLiteral? t l = some s := by
  obtain ⟨l', hl, rfl⟩ := Option.map_eq_some_iff.1 h
  obtain ⟨-, hfits⟩ := Option.filter_eq_some_iff.1 hl
  cases hformat : t.format? with
  | some f => exact ⟨_, by simp only [ofLiteral?, hformat]; rfl⟩
  | none =>
      have hfloat : t.isFloat = false := by simp [Primitive.isFloat, hformat]
      obtain ⟨n, rfl, hn⟩ : ∃ n, l' = .int n ∧ t.inRange n := by
        cases l' with
        | int n => cases t <;> simp_all [Literal.fits, Primitive.format?]
        | real w => cases t <;> simp_all [Literal.fits, Primitive.format?]
      exact ⟨⟨t, BitVec.ofInt _ n⟩, by simp [ofLiteral?, hformat, hfloat, Literal.toInt?, ofInt?, hn]⟩

end Scalar

namespace Value

theorem toCount?_scalar {s : Scalar} {n : Nat} :
    (Value.scalar s).toCount? = some n ↔ s.toInt? = some (n : Int) := by
  simp only [toCount?, toInt?, scalar?, Option.bind_some, Option.map_eq_some_iff,
    Option.filter_eq_some_iff, decide_eq_true_eq]
  constructor
  · rintro ⟨m, ⟨hm, h⟩, rfl⟩
    rwa [Int.toNat_of_nonneg h]
  · intro h
    exact ⟨n, ⟨h, by omega⟩, by simp⟩

theorem toCount?_eq_some {v : Value} {n : Nat} (h : v.toCount? = some n) :
    ∃ s, v = .scalar s ∧ s.toInt? = some (n : Int) := by
  cases v with
  | scalar s => exact ⟨s, rfl, toCount?_scalar.1 h⟩
  | list vs => simp [toCount?, toInt?, scalar?] at h
  | object o => simp [toCount?, toInt?, scalar?] at h

end Value

end WireSchema
