import WireSchema.Wire.Codec

namespace WireSchema

namespace Codec

variable (c : Codec)

/-- The paths at which two objects differ. Fields of the inherited part have no path of their own,
and a field that holds the length of a list differs if the lengths do. -/
def differencesAt (lead : String) (a b : Object) : Except CodecError (List String) := do
  if a.className ≠ b.className then
    return [lead ++ "<class>"]
  let p ← c.plan a.className
  let found ← p.equalityTerms.mapM fun term =>
    match term with
    | .parent _ =>
      match _found : a.parent with
      | some part => do differencesAt lead part (← b.needParent)
      | none => .error (.missing a.className "parent")
    | .value f =>
      let path := lead ++ f.name
      match f.layout with
      | .lengthOf _ list => do
        let xs ← a.needList list
        let ys ← b.needList list
        return if xs.length = ys.length then [] else [path]
      | .nested _ =>
        match _found : a.own? f.name with
        | some (.object part) => do
          match ← b.needOwn f.name with
          | .object other => differencesAt (path ++ ".") part other
          | _ => .error (.mismatch b.className f.name "object")
        | some _ => .error (.mismatch a.className f.name "object")
        | none => .error (.missing a.className f.name)
      | _ => do
        let x ← a.needOwn f.name
        let y ← b.needOwn f.name
        return if x.same y then [] else [path]
    | .elements f =>
      let path := lead ++ f.name
      match _found : a.own? f.name with
      | some (.list xs) => do
        let ys ← b.needList f.name
        if xs.length ≠ ys.length then
          return [path ++ ".len"]
        let items ← (xs.attach.zip ys).zipIdx.mapM fun ((⟨x, _member⟩, y), i) =>
          let position := path ++ "[" ++ toString i ++ "]"
          match x, y with
          | .object item, .object other => differencesAt (position ++ ".") item other
          | x, y => .ok (if x.same y then [] else [position])
        return items.flatten
      | some _ => .error (.mismatch a.className f.name "list")
      | none => .error (.missing a.className f.name)
  return found.flatten
termination_by a.height
decreasing_by
  · exact Object.parent_height_lt _found
  · exact Object.own_height_lt _found
  · exact Object.item_height_lt _found _member

def differences (a b : Object) : Except CodecError (List String) :=
  c.differencesAt "" a b

def equal (a b : Object) : Except CodecError Bool := do
  return (← c.differences a b).isEmpty

end Codec

end WireSchema
