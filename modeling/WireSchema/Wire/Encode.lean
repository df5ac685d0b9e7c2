import WireSchema.Wire.Codec

namespace WireSchema

namespace Codec

variable (c : Codec)

def encodeScalar (className field : String) (t : Primitive) (v : Value) : Except CodecError Bytes :=
  match v with
  | .scalar s =>
    if s.type = t then .ok (s.toBytes c.endian) else .error (.mismatch className field t.name)
  | _ => .error (.mismatch className field t.name)

def encodeLength (className field : String) (t : Primitive) (length : Nat) :
    Except CodecError Bytes :=
  match Scalar.ofInt? t length with
  | some s => .ok (s.toBytes c.endian)
  | none => .error (.lengthOverflow className field length t)

def checkLength (className field : String) (l : Layout) (found : Nat) : Except CodecError Unit :=
  match l with
  | .fixedScalars _ length | .fixedNested _ length =>
    if found = length then .ok () else .error (.lengthMismatch className field length found)
  | _ => .ok ()

def encodeScalars (o : Object) (f : FieldPlan) (t : Primitive) : Except CodecError Bytes := do
  let vs ← o.needList f.name
  checkLength o.className f.name f.layout vs.length
  return (← vs.mapM (c.encodeScalar o.className f.name t)).flatten

/-- The inherited part of an object, then its own fields as they are declared, without anything
between them. -/
def encode (o : Object) : Except CodecError Bytes := do
  let p ← c.plan o.className
  let parts ← p.wireSteps.mapM fun step =>
    match step with
    | .parent _ =>
      match _found : o.parent with
      | some part => encode part
      | none => .error (.missing o.className "parent")
    | .field f =>
      match f.layout with
      | .scalar t => do c.encodeScalar o.className f.name t (← o.needOwn f.name)
      | .lengthOf t list => do c.encodeLength o.className f.name t (← o.needList list).length
      | .fixedScalars t _ | .scalarList t _ => c.encodeScalars o f t
      | .nested className =>
        match _found : o.own? f.name with
        | some (.object part) =>
          if part.className = className then encode part
          else .error (.mismatch o.className f.name className)
        | some _ => .error (.mismatch o.className f.name "object")
        | none => .error (.missing o.className f.name)
      | .fixedNested className _ | .nestedList className _ =>
        match _found : o.own? f.name with
        | some (.list vs) => do
          checkLength o.className f.name f.layout vs.length
          let items ← vs.attach.mapM fun ⟨v, _member⟩ =>
            match v with
            | .object item => encode item
            | _ => .error (.mismatch o.className f.name className)
          return items.flatten
        | some _ => .error (.mismatch o.className f.name "list")
        | none => .error (.missing o.className f.name)
  return parts.flatten
termination_by o.height
decreasing_by
  · exact Object.parent_height_lt _found
  · exact Object.own_height_lt _found
  all_goals exact Object.item_height_lt _found _member

end Codec

end WireSchema
