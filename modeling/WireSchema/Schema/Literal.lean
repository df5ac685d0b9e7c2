import WireSchema.Number.Decimal
import WireSchema.Schema.Primitive

namespace WireSchema

/-- An integer, decimal or hexadecimal behind `0x`, or else a decimal number, which may carry the
suffixes `f` and `d` and is held as the nearest double. -/
inductive Literal where
  | int (value : Int)
  | real (word : BitVec 64)
  deriving DecidableEq, Repr

namespace Literal

open Text (trimChars signed?)

def isSuffix (c : Char) : Bool :=
  c == 'f' || c == 'F' || c == 'd' || c == 'D'

/-- Reads a finite double. The text is split into sign and magnitude, so that `-0.0` keeps its
sign. -/
def readReal? (cs : List Char) : Option Literal :=
  let number := (cs.reverse.dropWhile isSuffix).reverse
  let (negative, digits) := match number with
    | '-' :: ds => (true, ds)
    | '+' :: ds => (false, ds)
    | ds => (false, ds)
  let magnitude := (Decimal.read? digits).map (Decimal.toBinary .double)
  (magnitude.filter (BinaryFormat.isFinite .double)).map fun m =>
    real (BitVec.ofNat 64 (BinaryFormat.withSign .double negative m))

def readChars? (cs : List Char) : Option Literal :=
  let (negative, digits) := match cs with
    | '-' :: ds => (true, ds)
    | '+' :: ds => (false, ds)
    | ds => (false, ds)
  match digits with
  | '0' :: 'x' :: ds | '0' :: 'X' :: ds =>
    -- behind `-0x` the digits may have a sign of their own; for the least number of 128 bits the
    -- negation is exact here, and is the one literal that does not fit 128 bits
    (signed? 16 128 ds).map fun n => int (if negative then -n else n)
  | _ =>
    match signed? 10 128 cs with
    | some n => some (int n)
    | none => readReal? cs

def read? (s : String) : Option Literal :=
  readChars? (trimChars s.toList)

def toInt? : Literal → Option Int
  | int n => some n
  | real _ => none

def toDouble : Literal → BitVec 64
  | int n => BitVec.ofNat 64 (BinaryFormat.ofInt .double n)
  | real w => w

/-- The magnitude, as a double, of the greatest finite single. -/
def greatestSingle : Nat :=
  BinaryFormat.convert .single .double (BinaryFormat.infinity .single - 1)

/-- Whether the literal lies in the range of a type. Only integers lie in that of an integer type,
and everything lies in that of a double. -/
def fits (t : Primitive) (l : Literal) : Bool :=
  match t with
  | .float => BinaryFormat.magnitude .double l.toDouble.toNat ≤ greatestSingle
  | .double => true
  | t =>
    match l with
    | int n => t.inRange n
    | real _ => false

def readAs? (t : Primitive) (s : String) : Option Literal :=
  ((read? s).filter (fits t)).map fun l => if t.isFloat then real l.toDouble else l

end Literal

end WireSchema
