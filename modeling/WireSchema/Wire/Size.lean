import WireSchema.Wire.Codec

namespace WireSchema

namespace Codec

variable (c : Codec)

def total (sizes : List Nat) : Nat :=
  sizes.foldr (· + ·) 0

def size (o : Object) : Except CodecError Nat := do
  let p ← c.plan o.className
  let terms ← p.sizeTerms.mapError .plan
  let sizes ← terms.mapM fun term =>
    match term with
    | .parent _ =>
      match _found : o.parent with
      | some part => size part
      | none => .error (.missing o.className "parent")
    | .bytes _ count => .ok count
    | .nested field _ =>
      match _found : o.own? field with
      | some (.object part) => size part
      | some _ => .error (.mismatch o.className field "object")
      | none => .error (.missing o.className field)
    | .perElement field width => do return (← o.needList field).length * width
    | .elementSum field className =>
      match _found : o.own? field with
      | some (.list vs) => do
        let items ← vs.attach.mapM fun ⟨v, _member⟩ =>
          match v with
          | .object item => size item
          | _ => .error (.mismatch o.className field className)
        return total items
      | some _ => .error (.mismatch o.className field "list")
      | none => .error (.missing o.className field)
  return total sizes
termination_by o.height
decreasing_by
  · exact Object.parent_height_lt _found
  · exact Object.own_height_lt _found
  · exact Object.item_height_lt _found _member

end Codec

end WireSchema
