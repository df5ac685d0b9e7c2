import WireSchema.Object.DecEq
import WireSchema.Object.Describe
import WireSchema.Plan.Build
import WireSchema.Wire.Bytes

namespace WireSchema

inductive CodecError where
  | endOfInput
  | tooManyElements (className field : String) (count : Nat)
  | plan (error : PlanError)
  | unknownClass (name : String)
  | missing (className field : String)
  | mismatch (className field expected : String)
  | lengthMismatch (className field : String) (expected found : Nat)
  | lengthOverflow (className field : String) (length : Nat) (type : Primitive)
  | invalidCount (className field : String) (count : Value)
  /-- Objects are nested more deeply than any that plans make. -/
  | tooDeep (className : String)
  deriving DecidableEq

namespace CodecError

def message : CodecError → String
  | endOfInput => "IO: failed to fill whole buffer"
  | tooManyElements className field count =>
    s!"IO: {className}.{field}: {count} elements exceed remaining input"
  | plan error => error.message
  | unknownClass name => s!"Unknown class: {name}"
  | missing className field => s!"{className}.{field}: missing from object"
  | mismatch className field expected => s!"{className}.{field}: expected {expected}"
  | lengthMismatch className field expected found =>
    s!"{className}.{field}: fixed list holds {found} elements, expected {expected}"
  | lengthOverflow className field length type =>
    let name := type.name
    s!"{className}.{field}: length {length} does not fit `{name}`"
  | invalidCount className field count =>
    let text := count.describe
    s!"{className}.{field}: count {text} is not a valid element count"
  | tooDeep className => s!"{className}: objects are nested too deeply"

end CodecError

structure Codec where
  plans : List (String × Except PlanError Plan)
  endian : Endian

namespace Codec

def ofRegistry (r : Registry) (e : Endian) : Codec :=
  ⟨Plan.all r, e⟩

variable (c : Codec)

def classNames : List String :=
  c.plans.map Prod.fst

def plan (className : String) : Except CodecError Plan :=
  match c.plans.lookup className with
  | some (.ok p) => .ok p
  | some (.error e) => .error (.plan e)
  | none => .error (.unknownClass className)

def literal (className field : String) (t : Primitive) (l : Literal) : Except CodecError Value :=
  match Scalar.ofLiteral? t l with
  | some s => .ok (.scalar s)
  | none => .error (.mismatch className field t.name)

def initial (make : String → Except CodecError Object) (className field : String) :
    FieldInit → Except CodecError Value
  | .zero t => .ok (.scalar (.zero t))
  | .default t l => literal className field t l
  | .construct name => return .object (← make name)
  | .constructSlots name length =>
    if length = 0 then .ok (.list [])
    else do return .list (List.replicate length (.object (← make name)))
  -- no length is too great to be allocated
  | .zeroFill t length => .ok (.list (List.replicate length (.scalar (.zero t))))
  | .emptyList => .ok (.list [])

def assign (className : String) (o : Object) (a : Assignment) : Except CodecError Object := do
  let v ← literal className a.field a.type a.value
  match o.updateAtDepth? (·.setOwn? a.field v) a.depth with
  | some o => .ok o
  | none => .error (.missing className a.field)

def instantiateWithin : Nat → String → Except CodecError Object
  | 0, className => .error (.tooDeep className)
  | depth + 1, className => do
    let p ← c.plan className
    let parent ← p.parent.mapM (instantiateWithin depth)
    let fields ← p.fields.mapM fun f => do
      return (f.name, ← initial (instantiateWithin depth) className f.name f.init)
    p.assignments.foldlM (assign className) (.mk className parent fields)

/-- A new object of a class. Parts of an object are never of a class that the object is a part of,
so there are no more levels than classes. -/
def instantiate (className : String) : Except CodecError Object :=
  c.instantiateWithin (c.plans.length + 1) className

end Codec

namespace Object

def needOwn (o : Object) (field : String) : Except CodecError Value :=
  match o.own? field with
  | some v => .ok v
  | none => .error (.missing o.className field)

def needParent (o : Object) : Except CodecError Object :=
  match o.parent with
  | some p => .ok p
  | none => .error (.missing o.className "parent")

def needList (o : Object) (field : String) : Except CodecError (List Value) := do
  match ← o.needOwn field with
  | .list vs => .ok vs
  | _ => .error (.mismatch o.className field "list")

end Object

end WireSchema
