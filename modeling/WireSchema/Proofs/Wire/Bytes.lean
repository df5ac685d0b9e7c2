import Mathlib.Algebra.Order.Ring.Nat
import WireSchema.Wire.Bytes

namespace WireSchema

@[simp] theorem length_littleBytes (width n : Nat) : (littleBytes width n).length = width := by
  induction width generalizing n with
  | zero => rfl
  | succ width ih => simp [littleBytes, ih]

theorem ofLittleBytes_littleBytes (width n : Nat) :
    ofLittleBytes (littleBytes width n) = n % 256 ^ width := by
  induction width generalizing n with
  | zero => simp [littleBytes, ofLittleBytes, Nat.mod_one]
  | succ width ih =>
      rw [littleBytes, ofLittleBytes, ih, UInt8.toNat_ofNat', Nat.pow_succ' (n := width),
        Nat.mod_mul]

theorem littleBytes_ofLittleBytes (bs : Bytes) :
    littleBytes bs.length (ofLittleBytes bs) = bs := by
  induction bs with
  | nil => rfl
  | cons b bs ih =>
      have hb : b.toNat < 256 := b.toNat_lt
      have hdiv : (b.toNat + 256 * ofLittleBytes bs) / 256 = ofLittleBytes bs := by omega
      have hbyte : UInt8.ofNat (b.toNat + 256 * ofLittleBytes bs) = b := by
        apply UInt8.toNat_inj.1
        rw [UInt8.toNat_ofNat']
        omega
      rw [List.length_cons, ofLittleBytes, littleBytes, hdiv, ih, hbyte]

theorem ofLittleBytes_lt (bs : Bytes) : ofLittleBytes bs < 256 ^ bs.length := by
  induction bs with
  | nil => simp [ofLittleBytes]
  | cons b bs ih =>
      have hb : b.toNat < 256 := b.toNat_lt
      rw [List.length_cons, ofLittleBytes, Nat.pow_succ']
      omega

namespace Endian

variable (e : Endian)

@[simp] theorem length_bytesOf (width n : Nat) : (e.bytesOf width n).length = width := by
  cases e <;> simp [bytesOf]

theorem numberOf_bytesOf {width n : Nat} (h : n < 256 ^ width) :
    e.numberOf (e.bytesOf width n) = n := by
  cases e <;> simp [bytesOf, numberOf, ofLittleBytes_littleBytes, Nat.mod_eq_of_lt h]

theorem bytesOf_numberOf (bs : Bytes) : e.bytesOf bs.length (e.numberOf bs) = bs := by
  cases e with
  | little => exact littleBytes_ofLittleBytes bs
  | big =>
      have h := littleBytes_ofLittleBytes bs.reverse
      rw [List.length_reverse] at h
      simp [bytesOf, numberOf, h]

theorem numberOf_lt (bs : Bytes) : e.numberOf bs < 256 ^ bs.length := by
  cases e with
  | little => exact ofLittleBytes_lt bs
  | big => simpa [numberOf] using ofLittleBytes_lt bs.reverse

end Endian

namespace Scalar

variable (e : Endian)

@[simp] theorem length_toBytes (s : Scalar) : (s.toBytes e).length = s.type.width := by
  simp [toBytes]

@[simp] theorem type_ofBytes (t : Primitive) (bs : Bytes) : (ofBytes e t bs).type = t := rfl

theorem ofBytes_toBytes (s : Scalar) : ofBytes e s.type (s.toBytes e) = s := by
  obtain ⟨t, word⟩ := s
  have h : word.toNat < 256 ^ t.width := by
    have := word.isLt
    rwa [Nat.pow_mul] at this
  simp [ofBytes, toBytes, e.numberOf_bytesOf h]

theorem toBytes_ofBytes {t : Primitive} {bs : Bytes} (h : bs.length = t.width) :
    (ofBytes e t bs).toBytes e = bs := by
  have hlt : e.numberOf bs < 2 ^ (8 * t.width) := by
    have := e.numberOf_lt bs
    rwa [h, show 256 = 2 ^ 8 from rfl, ← Nat.pow_mul] at this
  have hword : (BitVec.ofNat (8 * t.width) (e.numberOf bs)).toNat = e.numberOf bs := by
    rw [BitVec.toNat_ofNat, Nat.mod_eq_of_lt hlt]
  rw [ofBytes, toBytes]
  simp only [hword, ← h]
  exact e.bytesOf_numberOf bs

end Scalar

end WireSchema
