import WireSchema.Plan.Error
import WireSchema.Schema.Literal

namespace WireSchema

/-- Where a variable list finds the number of its elements: a field of the object's part `depth`
steps up, which is of class `owner`. -/
structure CountSource where
  field : String
  owner : String
  depth : Nat
  type : Primitive
  deriving DecidableEq, Repr

inductive Layout where
  | scalar (type : Primitive)
  /-- A field that is written as the present length of the list `list`. -/
  | lengthOf (type : Primitive) (list : String)
  | nested (className : String)
  | fixedScalars (type : Primitive) (length : Nat)
  | fixedNested (className : String) (length : Nat)
  | scalarList (type : Primitive) (count : CountSource)
  | nestedList (className : String) (count : CountSource)
  deriving DecidableEq, Repr

namespace Layout

def scalarType? : Layout → Option Primitive
  | scalar t | lengthOf t _ | fixedScalars t _ | scalarList t _ => some t
  | _ => none

def className? : Layout → Option String
  | nested c | fixedNested c _ | nestedList c _ => some c
  | _ => none

def count? : Layout → Option CountSource
  | scalarList _ s | nestedList _ s => some s
  | _ => none

def isFixedList : Layout → Bool
  | fixedScalars .. | fixedNested .. => true
  | _ => false

def isVariableList : Layout → Bool
  | scalarList .. | nestedList .. => true
  | _ => false

def isList (l : Layout) : Bool :=
  l.isFixedList || l.isVariableList

end Layout

/-- `text` marks a list of bytes that may be read as a string. -/
structure FieldPlan where
  name : String
  comment : Option String
  layout : Layout
  default : Option Literal
  text : Bool
  deriving DecidableEq, Repr

/-- A value given to a field of the class or of the ancestor `owner`, `depth` steps up. -/
structure Assignment where
  field : String
  owner : String
  depth : Nat
  type : Primitive
  value : Literal
  deriving DecidableEq, Repr

/-- A class with every field of its own resolved to a layout on the wire. -/
structure Plan where
  name : String
  parent : Option String
  comment : Option String
  root : Bool
  fields : List FieldPlan
  assignments : List Assignment
  deriving DecidableEq, Repr

inductive FieldInit where
  | zero (type : Primitive)
  | default (type : Primitive) (value : Literal)
  | construct (className : String)
  | constructSlots (className : String) (length : Nat)
  | zeroFill (type : Primitive) (length : Nat)
  | emptyList
  deriving DecidableEq, Repr

inductive InitStep where
  | parent (className : String)
  | field (plan : FieldPlan) (init : FieldInit)
  | assign (assignment : Assignment)
  deriving DecidableEq, Repr

inductive WireStep where
  | parent (className : String)
  | field (plan : FieldPlan)
  deriving DecidableEq, Repr

inductive SizeTerm where
  | parent (className : String)
  | bytes (field : String) (count : Nat)
  | nested (field className : String)
  | perElement (field : String) (width : Nat)
  | elementSum (field className : String)
  deriving DecidableEq, Repr

inductive EqualityTerm where
  | parent (className : String)
  | value (plan : FieldPlan)
  | elements (plan : FieldPlan)
  deriving DecidableEq, Repr

def InitStep.field? : InitStep → Option FieldPlan
  | .field f _ => some f
  | .parent _ | .assign _ => none

def WireStep.field? : WireStep → Option FieldPlan
  | .field f => some f
  | .parent _ => none

def EqualityTerm.field? : EqualityTerm → Option FieldPlan
  | .value f | .elements f => some f
  | .parent _ => none

/-- A term of a size has no more than the name of its field. -/
def SizeTerm.field? : SizeTerm → Option String
  | .bytes field _ | .nested field _ | .perElement field _ | .elementSum field _ => some field
  | .parent _ => none

namespace FieldPlan

def init (f : FieldPlan) : FieldInit :=
  match f.layout with
  | .scalar t | .lengthOf t _ =>
    match f.default with
    | some l => .default t l
    | none => .zero t
  | .nested c => .construct c
  | .fixedScalars t n => .zeroFill t n
  | .fixedNested c n => .constructSlots c n
  | .scalarList .. | .nestedList .. => .emptyList

/-- The bytes that a field of the class `className` contributes. A fixed list of objects has no
size rule. -/
def sizeTerm (className : String) (f : FieldPlan) : Except PlanError SizeTerm :=
  match f.layout with
  | .scalar t | .lengthOf t _ => .ok (.bytes f.name t.width)
  | .nested c => .ok (.nested f.name c)
  -- the product is exact, also where it exceeds a machine word
  | .fixedScalars t n => .ok (.bytes f.name (n * t.width))
  | .fixedNested c _ => .error (.unsupportedLayout className f.name (.sizeOfFixedList c))
  | .scalarList t _ => .ok (.perElement f.name t.width)
  | .nestedList c _ => .ok (.elementSum f.name c)

def equalityTerm (f : FieldPlan) : EqualityTerm :=
  if f.layout.isList then .elements f else .value f

end FieldPlan

namespace Plan

variable (p : Plan)

def field? (name : String) : Option FieldPlan :=
  p.fields.find? (·.name == name)

def initSteps : List InitStep :=
  p.parent.toList.map .parent ++ p.fields.map (fun f => .field f f.init) ++
    p.assignments.map .assign

def wireSteps : List WireStep :=
  p.parent.toList.map .parent ++ p.fields.map .field

def sizeTerms : Except PlanError (List SizeTerm) := do
  return p.parent.toList.map .parent ++ (← p.fields.mapM (FieldPlan.sizeTerm p.name))

def equalityTerms : List EqualityTerm :=
  p.parent.toList.map .parent ++ p.fields.map FieldPlan.equalityTerm

def ownFixedSize? : Option Nat :=
  match p.sizeTerms with
  | .error _ => none
  | .ok terms => terms.foldlM (fun total term => match term with
    | .parent _ => some total
    | .bytes _ count => some (total + count)
    | _ => none) 0

end Plan

end WireSchema
