import WireSchema.Object.Basic

namespace WireSchema

/-- One leg of a path: a field of an object, and positions in the lists that it holds. -/
structure PathLeg where
  field : String
  positions : List Nat

namespace PathLeg

def updateItem? (change : Object → Option Object) : List Nat → Value → Option Value
  | [], .object o => (change o).map .object
  | i :: positions, .list vs => do
    let v ← vs[i]?
    let w ← updateItem? change positions v
    return .list (vs.set i w)
  | _, _ => none

def item? : List Nat → Value → Option Object
  | [], .object o => some o
  | i :: positions, .list vs => vs[i]?.bind (item? positions)
  | _, _ => none

end PathLeg

namespace Object

def at? : List PathLeg → Object → Option Object
  | [], o => some o
  | leg :: path, o => ((o.get? leg.field).bind (PathLeg.item? leg.positions)).bind (at? path)

def updateAt? (change : Object → Option Object) : List PathLeg → Object → Option Object
  | [], o => change o
  | leg :: path, o =>
    o.update? leg.field (PathLeg.updateItem? (updateAt? change path) leg.positions)

end Object

end WireSchema
