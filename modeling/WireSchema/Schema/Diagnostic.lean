import WireSchema.Schema.Primitive

namespace WireSchema

inductive Severity where
  | error
  | warning
  deriving DecidableEq, Repr

def Severity.name : Severity → String
  | error => "error"
  | warning => "warning"

inductive LiteralProblem where
  | notNumeric (text : String)
  | outOfRange (text : String) (type : Primitive)
  deriving DecidableEq, Repr

def LiteralProblem.message : LiteralProblem → String
  | notNumeric text => s!"`{text}` is not a numeric literal"
  | outOfRange text type =>
    let name := type.name
    s!"`{text}` does not fit `{name}`"

inductive Finding where
  | unknownParent (name : String)
  | inheritanceCycle (name : String)
  | duplicateField (name : String)
  | unknownPrimitive (typeName : String)
  | unknownClass (name : String)
  | invalidDefault (problem : LiteralProblem)
  | invalidInitial (problem : LiteralProblem)
  | initialNotPrimitive
  | initialNotFound (field : String)
  | listLength
  | fixedListOfClass (name : String)
  /-- The count field is no earlier primitive of the class; it may still be inherited. -/
  | countNotEarlier (field : String)
  | countAfterList (field : String)
  | countNotFound (field : String)
  | countNotInteger (field : String)
  | countsAnotherList (field : String)
  deriving DecidableEq, Repr

namespace Finding

def severity : Finding → Severity
  | countNotEarlier _ => .warning
  | _ => .error

def kind : Finding → String
  | unknownParent _ => "UnknownParentClass"
  | inheritanceCycle _ => "InheritanceCycle"
  | duplicateField _ => "DuplicateField"
  | unknownPrimitive _ => "UnknownPrimitiveType"
  | unknownClass _ => "UnknownClassReference"
  | invalidDefault _ | invalidInitial _ | initialNotPrimitive => "InvalidLiteral"
  | initialNotFound _ => "UnresolvedInitialValue"
  | listLength => "InvalidListLength"
  | fixedListOfClass _ => "UnsupportedLayout"
  | countNotEarlier _ | countNotFound _ => "UnresolvedCountFieldLink"
  | countAfterList _ => "CountFieldAfterList"
  | countNotInteger _ | countsAnotherList _ => "InvalidCountField"

def message : Finding → String
  | unknownParent name => s!"parent class `{name}` is not defined"
  | inheritanceCycle name => s!"inheritance chain loops back to `{name}`"
  | duplicateField name => s!"field `{name}` is declared more than once"
  | unknownPrimitive typeName => s!"unknown primitive type `{typeName}`"
  | unknownClass name => s!"class `{name}` is not defined"
  | invalidDefault problem => "defaultValue " ++ problem.message
  | invalidInitial problem => "initial value " ++ problem.message
  | initialNotPrimitive => "initial value targets a non-primitive field"
  | initialNotFound field => s!"initial value target `{field}` not found in class or its ancestors"
  | listLength => "fixed list length must be a positive integer"
  | fixedListOfClass name => s!"fixed list of class `{name}` is not supported; use a variable list"
  | countNotEarlier field => s!"count field `{field}` is not an earlier primitive of this class"
  | countAfterList field => s!"count field `{field}` is declared after the list it counts"
  | countNotFound field => s!"count field `{field}` not found in class or its ancestors"
  | countNotInteger field => s!"count field `{field}` must be an integer primitive"
  | countsAnotherList field => s!"count field `{field}` already counts another list"

end Finding

structure Diagnostic where
  className : String
  field : Option String
  finding : Finding
  deriving DecidableEq, Repr

namespace Diagnostic

def isError (d : Diagnostic) : Bool :=
  d.finding.severity == .error

def location (d : Diagnostic) : String :=
  match d.field with
  | some f => d.className ++ "." ++ f
  | none => d.className

def text (d : Diagnostic) : String :=
  let severity := d.finding.severity.name
  let message := d.finding.message
  let kind := d.finding.kind
  let location := d.location
  s!"{severity}: {message} [{kind}] ({location})"

end Diagnostic

end WireSchema
