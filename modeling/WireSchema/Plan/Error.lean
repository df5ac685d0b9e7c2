namespace WireSchema

inductive LayoutProblem where
  | notLinkedToList
  | countAfterList (countField : String)
  | countNotInteger (countField : String)
  | embedsItself (className : String)
  | sizeOfFixedList (className : String)
  deriving DecidableEq, Repr

def LayoutProblem.message : LayoutProblem → String
  | notLinkedToList => "dynamic length field is not linked to a variable list"
  | countAfterList countField => s!"count field `{countField}` is declared after the list"
  | countNotInteger countField => s!"count field `{countField}` is not an integer primitive"
  | embedsItself className => s!"`{className}` embeds itself without an intervening variable list"
  | sizeOfFixedList className => s!"marshalled size of a fixed list of class `{className}`"

inductive PlanError where
  | unsupportedLayout (className field : String) (problem : LayoutProblem)
  | unknownClass (className field name : String)
  | unknownField (className field : String)
  | unknownPrimitive (className field typeName : String)
  | invalidLiteral (className field value typeName : String)
  | nameCollision (className field name : String)
  | inheritanceCycle (className : String)
  deriving DecidableEq, Repr

def PlanError.message : PlanError → String
  | unsupportedLayout className field problem =>
    let reason := problem.message
    s!"{className}.{field}: unsupported layout: {reason}"
  | unknownClass className field name => s!"{className}.{field}: unknown class `{name}`"
  | unknownField className field => s!"{className}.{field}: field not found in class or ancestors"
  | unknownPrimitive className field typeName =>
    s!"{className}.{field}: unknown primitive type `{typeName}`"
  | invalidLiteral className field value typeName =>
    s!"{className}.{field}: literal `{value}` is not a valid `{typeName}`"
  | nameCollision className field name =>
    s!"{className}.{field}: generated name `{name}` collides with another member"
  | inheritanceCycle className => s!"{className}: inheritance chain is cyclic"

end WireSchema
