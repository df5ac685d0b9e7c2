import WireSchema.Schema.Primitive
import WireSchema.Text.Basic

namespace WireSchema

/-- Types and classes are named by the text that the schema has for them. -/
inductive ElementType where
  | primitive (typeName : String)
  | ofClass (className : String)
  deriving DecidableEq, Repr

inductive FieldType where
  /-- `counts` is the position, in the class, of the variable list whose length the field holds. -/
  | primitive (typeName : String) (default : Option String) (counts : Option Nat)
  | classRef (className : String)
  | fixedList (element : ElementType) (length : Nat) (text : Bool)
  | variableList (element : ElementType) (countField : String) (text : Bool)
  deriving DecidableEq, Repr

structure Field where
  name : String
  comment : Option String
  type : FieldType
  deriving DecidableEq, Repr

namespace Field

def typeName? (f : Field) : Option String :=
  match f.type with
  | .primitive t _ _ => some t
  | _ => none

def primitive? (f : Field) : Option Primitive :=
  f.typeName?.bind Primitive.ofName?

def integer? (f : Field) : Option Primitive :=
  f.primitive?.filter (!·.isFloat)

def counts? (f : Field) : Option Nat :=
  match f.type with
  | .primitive _ _ counts => counts
  | _ => none

end Field

structure InitialValue where
  field : String
  value : String
  deriving DecidableEq, Repr

/-- A class without a parent names `root`, in any case, as its parent. -/
structure ClassDef where
  name : String
  parent : String := "root"
  comment : Option String := none
  root : Bool := false
  fields : List Field := []
  initial : List InitialValue := []
  deriving DecidableEq, Repr

namespace ClassDef

def parent? (c : ClassDef) : Option String :=
  if Text.sameKeyword c.parent "root" then none else some c.parent

def field? (c : ClassDef) (name : String) : Option Field :=
  c.fields.find? (·.name == name)

def fieldIndex? (c : ClassDef) (name : String) : Option Nat :=
  c.fields.findIdx? (·.name == name)

end ClassDef

end WireSchema
