import WireSchema.Number.Binary
import WireSchema.Text.Basic

namespace WireSchema

inductive Primitive where
  | byte
  | unsignedByte
  | short
  | unsignedShort
  | int
  | unsignedInt
  | long
  | unsignedLong
  | float
  | double
  deriving DecidableEq, Repr

namespace Primitive

def all : List Primitive :=
  [byte, unsignedByte, short, unsignedShort, int, unsignedInt, long, unsignedLong, float, double]

def name : Primitive → String
  | byte => "byte"
  | unsignedByte => "unsigned byte"
  | short => "short"
  | unsignedShort => "unsigned short"
  | int => "int"
  | unsignedInt => "unsigned int"
  | long => "long"
  | unsignedLong => "unsigned long"
  | float => "float"
  | double => "double"

/-- The type of a name as a schema writes it, blanks around it aside. -/
def ofName? (s : String) : Option Primitive :=
  all.find? (·.name == Text.trim s)

def width : Primitive → Nat
  | byte | unsignedByte => 1
  | short | unsignedShort => 2
  | int | unsignedInt | float => 4
  | long | unsignedLong | double => 8

def format? : Primitive → Option BinaryFormat
  | float => some .single
  | double => some .double
  | _ => none

def isFloat (t : Primitive) : Bool :=
  t.format?.isSome

def isSigned : Primitive → Bool
  | byte | short | int | long => true
  | _ => false

def range? (t : Primitive) : Option (Int × Int) :=
  let bits := 8 * t.width
  if t.isFloat then none
  else if t.isSigned then some (-(Nat.pow 2 (bits - 1) : Int), (Nat.pow 2 (bits - 1) : Int) - 1)
  else some (0, (Nat.pow 2 bits : Int) - 1)

def inRange (t : Primitive) (n : Int) : Bool :=
  match t.range? with
  | some (least, greatest) => least ≤ n && n ≤ greatest
  | none => false

end Primitive

end WireSchema
