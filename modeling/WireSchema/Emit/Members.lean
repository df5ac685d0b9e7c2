import WireSchema.Emit.Code
import WireSchema.Plan.Basic

namespace WireSchema

namespace FieldPlan

/-- The element type of a fixed list of bytes that may be read as text. -/
def textElement? (f : FieldPlan) : Option Primitive :=
  match f.layout with
  | .fixedScalars .byte _ => if f.text then some .byte else none
  | .fixedScalars .unsignedByte _ => if f.text then some .unsignedByte else none
  | _ => none

end FieldPlan

structure MemberRules where
  identifier : String → String
  /-- whether a class of this plan may not have a field of this identifier -/
  isReserved : Plan → String → Bool
  methods : List String
  /-- the methods that a field of the given identifier brings with it -/
  fieldMethods : FieldPlan → String → List String

namespace MemberRules

variable (rules : MemberRules)

def addNames (used : List String) : List String → Except String (List String)
  | [] => .ok used
  | name :: names =>
    if used.contains name then .error name else addNames (used ++ [name]) names

def assignFrom (p : Plan) (identifiers methods : List String) :
    List FieldPlan → Except PlanError (List String)
  | [] => .ok identifiers
  | f :: fs =>
    let name := rules.identifier f.name
    if identifiers.contains name || rules.isReserved p name then
      .error (.nameCollision p.name f.name name)
    else
      match addNames methods (rules.fieldMethods f name) with
      | .error clash => .error (.nameCollision p.name f.name clash)
      | .ok methods => assignFrom p (identifiers ++ [name]) methods fs

def identifiers (p : Plan) : Except PlanError (List String) :=
  rules.assignFrom p [] rules.methods p.fields

end MemberRules

namespace Code

/-- The lines for the steps of an operation, one step after the other. A step about a field takes the
next of the identifiers, any other step has the name `other`. The steps end with the first one that
is about a field for which no identifier is left. -/
def ofSteps {α : Type} (field? : α → Option FieldPlan) (other : String)
    (lines : α → String → Code) : List α → List String → Code
  | [], _ => []
  | step :: steps, identifiers =>
    match field? step, identifiers with
    | none, _ => lines step other ++ ofSteps field? other lines steps identifiers
    | some _, identifier :: identifiers =>
      lines step identifier ++ ofSteps field? other lines steps identifiers
    | some _, [] => []

end Code

/-- The identifier of the field of a name, which is found by the position of the first such field. A
name that no field has is made an identifier. -/
def MemberRules.identifierOf (rules : MemberRules) (p : Plan) (identifiers : List String)
    (field : String) : String :=
  ((p.fields.findIdx? (·.name == field)).bind (identifiers[·]?)).getD (rules.identifier field)

end WireSchema
