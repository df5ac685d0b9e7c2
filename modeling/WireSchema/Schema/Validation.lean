import WireSchema.Schema.Literal
import WireSchema.Schema.Reader

namespace WireSchema

def literalProblem? (text : String) (t : Primitive) : Option LiteralProblem :=
  match Literal.read? text with
  | none => some (.notNumeric text)
  | some l => if l.fits t then none else some (.outOfRange text t)

namespace Registry

variable (r : Registry)

def repeated? (passed : List String) (next : Option ClassDef) : Option ClassDef :=
  match next with
  | none => none
  | some c =>
    if _again : c.name ∈ passed then some c
    else repeated? (passed ++ [c.name]) (r.parentOf? c)
termination_by r.stepsAhead passed next
decreasing_by exact r.stepsAhead_lt _again (by simp) (by simp +contextual)

def checkAncestors (c : ClassDef) : List Finding :=
  match c.parent? with
  | none => []
  | some p =>
    if !r.contains p then [.unknownParent p]
    else match r.repeated? [c.name] (r.parentOf? c) with
      | some d => [.inheritanceCycle d.name]
      | none => []

def checkPrimitiveName (typeName : String) : List Finding :=
  if (Primitive.ofName? typeName).isSome then [] else [.unknownPrimitive typeName]

def checkClassName (name : String) : List Finding :=
  if r.contains name then [] else [.unknownClass name]

def checkElement : ElementType → List Finding
  | .primitive typeName => checkPrimitiveName typeName
  | .ofClass name => r.checkClassName name

def checkType : FieldType → List Finding
  | .primitive typeName default _ =>
    match Primitive.ofName? typeName with
    | none => [.unknownPrimitive typeName]
    | some t => ((default.bind (literalProblem? · t)).map .invalidDefault).toList
  | .classRef name => r.checkClassName name
  | .fixedList element _ _ | .variableList element _ _ => r.checkElement element

def checkField (c : ClassDef) (f : Field) (position : Nat) : List Finding :=
  let duplicate := (c.fields.take position).any (·.name == f.name)
  (if duplicate then [.duplicateField f.name] else []) ++ r.checkType f.type

/-- The count field of a list: the first one of its name in the class, else the nearest inherited
one. An own field has its position. -/
def countField? (c : ClassDef) (name : String) : Option (Field × Option Nat) :=
  match c.field? name, c.fieldIndex? name with
  | some f, some i => some (f, some i)
  | _, _ => ((r.lineage c).tail.findSome? (·.field? name)).map (·, none)

def checkCount (c : ClassDef) (position : Nat) (countField : String) : List Finding :=
  match r.countField? c countField with
  | none => [.countNotFound countField]
  | some (f, own) =>
    if own.any (position < ·) then [.countAfterList countField]
    else if f.integer?.isNone then [.countNotInteger countField]
    else if own.isSome && f.counts?.any (· != position) then [.countsAnotherList countField]
    else []

def checkList (c : ClassDef) (f : Field) (position : Nat) : List Finding :=
  match f.type with
  | .fixedList element length _ =>
    (if length = 0 then [.listLength] else []) ++
      match element with
      | .ofClass name => [.fixedListOfClass name]
      | .primitive _ => []
  | .variableList _ countField _ => r.checkCount c position countField
  | _ => []

def checkInitial (c : ClassDef) (i : InitialValue) : List Finding :=
  match r.resolve? c i.field with
  | none => [.initialNotFound i.field]
  | some target =>
    match target.field.typeName? with
    | none => [.initialNotPrimitive]
    | some typeName =>
      (((Primitive.ofName? typeName).bind (literalProblem? i.value)).map .invalidInitial).toList

def validateClass (c : ClassDef) : List Diagnostic :=
  let about (field : Option String) (findings : List Finding) : List Diagnostic :=
    findings.map (⟨c.name, field, ·⟩)
  about none (r.checkAncestors c) ++
    c.fields.zipIdx.flatMap (fun (f, i) => about (some f.name) (r.checkField c f i)) ++
    c.fields.zipIdx.flatMap (fun (f, i) => about (some f.name) (r.checkList c f i)) ++
    c.initial.flatMap (fun i => about (some i.field) (r.checkInitial c i))

def validate : List Diagnostic :=
  r.classes.flatMap r.validateClass

end Registry

inductive Rejection where
  | unreadable (error : LoadError)
  /-- All diagnostics, warnings included. -/
  | invalid (diagnostics : List Diagnostic)
  deriving DecidableEq, Repr

def Rejection.message : Rejection → String
  | unreadable error => "schema load failed: " ++ error.message
  | invalid diagnostics =>
    let errors := (diagnostics.filter Diagnostic.isError).length
    s!"schema has {errors} validation error(s)"

def Schema.check (source : String) : Except Rejection Loaded :=
  match Schema.read source with
  | .error e => .error (.unreadable e)
  | .ok loaded =>
    let diagnostics := loaded.warnings ++ loaded.schema.registry.validate
    if diagnostics.any Diagnostic.isError then .error (.invalid diagnostics)
    else .ok { loaded with warnings := diagnostics }

end WireSchema
