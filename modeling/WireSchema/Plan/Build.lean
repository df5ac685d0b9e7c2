import WireSchema.Plan.Basic
import WireSchema.Schema.Registry

namespace WireSchema

namespace ClassDef

def without (name : String) (pool : List ClassDef) : List ClassDef :=
  pool.filter (·.name != name)

/-- What a class holds by value: the names of fields, `inheritsFrom` for the inherited part, with
the classes of the parts. Variable lists may be empty and so do not count. -/
def embedded (c : ClassDef) : List (String × String) :=
  c.parent?.toList.map (("inheritsFrom", ·)) ++ c.fields.filterMap fun f =>
    match f.type with
    | .classRef name | .fixedList (.ofClass name) _ _ => some (f.name, name)
    | _ => none

def partCount (pool : List ClassDef) : Nat :=
  pool.foldr (fun c count => c.embedded.length + count) 0

theorem partCount_cons (c : ClassDef) (pool : List ClassDef) :
    partCount (c :: pool) = c.embedded.length + partCount pool := rfl

theorem partCount_without_le (name : String) (pool : List ClassDef) :
    partCount (without name pool) ≤ partCount pool := by
  induction pool with
  | nil => exact Nat.le_refl 0
  | cons d pool ih =>
    rw [without, List.filter_cons]
    split
    · exact Nat.add_le_add_left ih _
    · exact Nat.le_trans ih (Nat.le_add_left _ _)

theorem partCount_without {name : String} {pool : List ClassDef} {c : ClassDef}
    (h : pool.find? (·.name == name) = some c) :
    c.embedded.length + partCount (without name pool) ≤ partCount pool := by
  induction pool with
  | nil => cases h
  | cons d pool ih =>
    rw [List.find?_cons] at h
    split at h
    next hd =>
      cases h
      have hwithout : without name (c :: pool) = without name pool :=
        List.filter_cons_of_neg (by simpa using hd)
      rw [hwithout, partCount_cons]
      exact Nat.add_le_add_left (partCount_without_le name pool) _
    next hd =>
      have hwithout : without name (d :: pool) = d :: without name pool :=
        List.filter_cons_of_pos (by simpa using hd)
      rw [hwithout, partCount_cons, partCount_cons, Nat.add_left_comm]
      exact Nat.add_le_add_left (ih h) _

end ClassDef

namespace Registry

variable (r : Registry)

/-- Follows the parts in `work`, each a field with the class that it led to, and gives the field
that leads to `target` first. The classes of `pool` are those not followed yet. -/
def searchParts (target : String) (pool : List ClassDef) : List (String × String) → Option String
  | [] => none
  | (field, name) :: work =>
    if name = target then some field
    else
      match _found : pool.find? (·.name == name) with
      | none => searchParts target pool work
      | some c =>
        let parts := c.embedded.reverse.map fun part => (field, part.2)
        searchParts target (ClassDef.without name pool) (parts ++ work)
termination_by work => work.length + ClassDef.partCount pool
decreasing_by
  · simp
  · have := ClassDef.partCount_without _found
    simp only [List.length_append, List.length_map, List.length_reverse, List.length_cons]
    omega

/-- A part of a class, the last one declared, that is or holds an object of the class itself. -/
def selfEmbedding? (c : ClassDef) : Option String :=
  searchParts c.name r.classes c.embedded.reverse

end Registry

namespace Plan

variable (r : Registry) (c : ClassDef)

def primitive (field typeName : String) : Except PlanError Primitive :=
  match Primitive.ofName? typeName with
  | some t => .ok t
  | none => .error (.unknownPrimitive c.name field typeName)

def knownClass (field name : String) : Except PlanError String :=
  if r.contains name then .ok name else .error (.unknownClass c.name field name)

def countSource (position : Nat) (list countField : String) : Except PlanError CountSource :=
  match r.resolve? c countField with
  | none => .error (.unknownField c.name countField)
  | some found =>
    if found.depth = 0 ∧ (c.fieldIndex? countField).any (position < ·) then
      .error (.unsupportedLayout c.name list (.countAfterList countField))
    else
      match found.field.integer? with
      | none => .error (.unsupportedLayout c.name list (.countNotInteger countField))
      | some type => .ok ⟨countField, found.owner.name, found.depth, type⟩

def defaultValue (field typeName : String) (t : Primitive) (text : Option String) :
    Except PlanError (Option Literal) :=
  match text with
  | none => .ok none
  | some s =>
    match Literal.readAs? t s with
    | some l => .ok (some l)
    | none => .error (.invalidLiteral c.name field s typeName)

def primitiveLayout (field : String) (t : Primitive) (counts : Option Nat) :
    Except PlanError Layout :=
  match counts with
  | none => .ok (.scalar t)
  | some position =>
    match c.fields[position]? with
    | some ⟨list, _, .variableList ..⟩ => .ok (.lengthOf t list)
    | _ => .error (.unsupportedLayout c.name field .notLinkedToList)

def field (f : Field) (position : Nat) : Except PlanError FieldPlan := do
  match f.type with
  | .primitive typeName default counts =>
    let t ← primitive c f.name typeName
    let default ← defaultValue c f.name typeName t default
    let layout ← primitiveLayout c f.name t counts
    return ⟨f.name, f.comment, layout, default, false⟩
  | .classRef name =>
    return ⟨f.name, f.comment, .nested (← knownClass r c f.name name), none, false⟩
  | .fixedList (.primitive typeName) length text =>
    return ⟨f.name, f.comment, .fixedScalars (← primitive c f.name typeName) length, none, text⟩
  | .fixedList (.ofClass name) length text =>
    return ⟨f.name, f.comment, .fixedNested (← knownClass r c f.name name) length, none, text⟩
  | .variableList element countField text =>
    let count ← countSource r c position f.name countField
    let layout ← match element with
      | .primitive typeName => do pure (Layout.scalarList (← primitive c f.name typeName) count)
      | .ofClass name => do pure (Layout.nestedList (← knownClass r c f.name name) count)
    return ⟨f.name, f.comment, layout, none, text⟩

def assignment (i : InitialValue) : Except PlanError Assignment :=
  match r.resolve? c i.field with
  | none => .error (.unknownField c.name i.field)
  | some found =>
    let typeName := found.field.typeName?.getD "non-primitive"
    match found.field.primitive? with
    | none => .error (.invalidLiteral c.name i.field i.value typeName)
    | some t =>
      match Literal.readAs? t i.value with
      | none => .error (.invalidLiteral c.name i.field i.value typeName)
      | some l => .ok ⟨i.field, found.owner.name, found.depth, t, l⟩

/-- Goes from `next` upward and fails at a class that is among those passed. -/
def climb (passed : List String) (next : Option ClassDef) : Except PlanError Unit :=
  match next with
  | none => .ok ()
  | some d =>
    if _again : d.name ∈ passed then .error (.inheritanceCycle c.name)
    else climb (passed.insert d.name) (r.parentOf? d)
termination_by r.stepsAhead passed next
decreasing_by exact r.stepsAhead_lt _again (by simp) (by simp +contextual)

def checkAncestors : Except PlanError Unit :=
  climb r c [c.name] (r.parentOf? c)

def checkEmbedding : Except PlanError Unit :=
  match r.selfEmbedding? c with
  | some field => .error (.unsupportedLayout c.name field (.embedsItself c.name))
  | none => .ok ()

/-- The ancestors of a class are checked first, then its fields in order, then that it does not hold
itself, then its initial values. The first problem found is the result. -/
def build : Except PlanError Plan := do
  let parent ← match c.parent? with
    | none => pure none
    | some name => some <$> knownClass r c "inheritsFrom" name
  checkAncestors r c
  let fields ← c.fields.zipIdx.mapM fun (f, i) => field r c f i
  checkEmbedding r c
  let assignments ← c.initial.mapM (assignment r c)
  return ⟨c.name, parent, c.comment, c.root, fields, assignments⟩

def ofName (r : Registry) (name : String) : Except PlanError Plan :=
  match r.find? name with
  | some c => build r c
  | none => .error (.unknownClass name "" name)

def all (r : Registry) : List (String × Except PlanError Plan) :=
  r.classes.map fun c => (c.name, build r c)

end Plan

end WireSchema
