import WireSchema.Schema.Literal

namespace WireSchema

/-- A primitive type and the bits that stand for the value on the wire: two's complement for an
integer, the binary format for a floating-point number. -/
structure Scalar where
  type : Primitive
  word : BitVec (8 * type.width)
  deriving DecidableEq

namespace Scalar

def zero (t : Primitive) : Scalar :=
  ⟨t, 0⟩

def ofInt? (t : Primitive) (n : Int) : Option Scalar :=
  if t.inRange n then some ⟨t, BitVec.ofInt _ n⟩ else none

/-- A literal as a value of the type. A number that is too great for a floating-point type becomes
infinity. -/
def ofLiteral? (t : Primitive) (l : Literal) : Option Scalar :=
  match t.format? with
  | some f => some ⟨t, BitVec.ofNat _ (BinaryFormat.convert .double f l.toDouble.toNat)⟩
  | none => l.toInt?.bind (ofInt? t)

def toInt? (s : Scalar) : Option Int :=
  if s.type.isFloat then none
  else if s.type.isSigned then some s.word.toInt
  else some s.word.toNat

def toDouble? (s : Scalar) : Option (BitVec 64) :=
  s.type.format?.map fun f => BitVec.ofNat 64 (f.convert .double s.word.toNat)

/-- Equality of values: floating-point numbers are compared as numbers, all else bit by bit. -/
def same (a b : Scalar) : Bool :=
  match a.type.format? with
  | some f => a.type == b.type && f.sameNumber a.word.toNat b.word.toNat
  | none => a == b

end Scalar

end WireSchema
