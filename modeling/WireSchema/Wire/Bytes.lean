import WireSchema.Object.Scalar

namespace WireSchema

inductive Endian where
  | big
  | little
  deriving DecidableEq, Repr

abbrev Bytes := List UInt8

/-- The `width` bytes of a number, least significant first. -/
def littleBytes : Nat → Nat → Bytes
  | 0, _ => []
  | width + 1, n => UInt8.ofNat n :: littleBytes width (n / 256)

def ofLittleBytes : Bytes → Nat
  | [] => 0
  | b :: bs => b.toNat + 256 * ofLittleBytes bs

namespace Endian

def bytesOf (e : Endian) (width n : Nat) : Bytes :=
  match e with
  | little => littleBytes width n
  | big => (littleBytes width n).reverse

def numberOf (e : Endian) (bs : Bytes) : Nat :=
  match e with
  | little => ofLittleBytes bs
  | big => ofLittleBytes bs.reverse

end Endian

namespace Scalar

def toBytes (e : Endian) (s : Scalar) : Bytes :=
  e.bytesOf s.type.width s.word.toNat

def ofBytes (e : Endian) (t : Primitive) (bs : Bytes) : Scalar :=
  ⟨t, BitVec.ofNat _ (e.numberOf bs)⟩

end Scalar

end WireSchema
