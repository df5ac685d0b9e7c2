import WireSchema.Markup.Event
import WireSchema.Schema.Diagnostic
import WireSchema.Schema.Registry

namespace WireSchema

inductive LoadError where
  | markup (error : Markup.Error)
  | unexpectedElement (line : Nat) (element context : String)
  | missingAttribute (line : Nat) (element name : String)
  | duplicateClass (line : Nat) (name : String)
  | missingType (line : Nat) (className field : String)
  | multipleTypes (line : Nat) (className field : String)
  | unknownListType (line : Nat) (value : String)
  | notBoolean (line : Nat) (name value : String)
  deriving DecidableEq, Repr

namespace LoadError

def message : LoadError → String
  | markup error => error.message
  | unexpectedElement line element context =>
    s!"line {line}: <{element}> is not allowed inside <{context}>"
  | missingAttribute line element name => s!"line {line}: <{element}> requires attribute `{name}`"
  | duplicateClass line name => s!"line {line}: class `{name}` is defined more than once"
  | missingType line className field => s!"line {line}: {className}.{field} has no type element"
  | multipleTypes line className field =>
    s!"line {line}: {className}.{field} has more than one type element"
  | unknownListType line value =>
    s!"line {line}: list type `{value}` (expected `fixed` or `variable`)"
  | notBoolean line name value =>
    s!"line {line}: attribute `{name}` = `{value}` (expected `true` or `false`)"

end LoadError

structure Loaded where
  schema : Schema := {}
  warnings : List Diagnostic := []

namespace Reader

inductive Keyword where
  | cls
  | field
  | primitive
  | classRef
  | list
  | initialValue
  deriving DecidableEq, Repr

namespace Keyword

def all : List Keyword := [cls, field, primitive, classRef, list, initialValue]

def name : Keyword → String
  | cls => "class"
  | field => "attribute"
  | primitive => "primitive"
  | classRef => "classRef"
  | list => "list"
  | initialValue => "initialValue"

def ofName? (s : String) : Option Keyword :=
  all.find? fun k => Text.sameKeyword k.name s

end Keyword

structure StartTag where
  name : String
  attributes : List (String × String)
  line : Nat

namespace StartTag

def get? (tag : StartTag) (name : String) : Option String :=
  tag.attributes.lookup name

/-- An attribute that has to be there and may not be blank, without the blanks around it. Errors
name the element `element`. -/
def required (tag : StartTag) (element name : String) : Except LoadError String :=
  match (tag.get? name).map Text.trim with
  | none | some "" => .error (.missingAttribute tag.line element name)
  | some value => .ok value

def boolean (tag : StartTag) (name : String) : Except LoadError Bool :=
  match (tag.get? name).map Text.trim with
  | none => .ok false
  | some value =>
    if Text.sameKeyword value "true" then .ok true
    else if Text.sameKeyword value "false" then .ok false
    else .error (.notBoolean tag.line name value)

end StartTag

inductive Scope where
  | root
  | backend
  | cls
  | field
  | list
  | leaf
  | ignored
  deriving DecidableEq, Repr

def Scope.name : Scope → String
  | root => "document"
  | backend => "backend"
  | cls => "class"
  | field => "attribute"
  | list => "list"
  | leaf | ignored => "element"

/-- The field that is being read. Its type is a placeholder until there is an element that says it. -/
structure FieldCursor where
  field : Field
  hasType : Bool
  line : Nat

structure ListCursor where
  isVariable : Bool
  length : Nat
  countField : Option String
  text : Bool
  element : Option ElementType

def ListCursor.type (l : ListCursor) (element : ElementType) : FieldType :=
  if l.isVariable then .variableList element (l.countField.getD "") l.text
  else .fixedList element l.length l.text

/-- The open elements, the innermost first, and what is being read of a class, a field and a list.
Nothing but the way in which elements are opened and closed keeps the two in step, so whatever needs
a class, a field or a list also says what happens without it. -/
structure State where
  loaded : Loaded := {}
  scopes : List Scope := []
  cls : Option ClassDef := none
  field : Option FieldCursor := none
  list : Option ListCursor := none

namespace State

def enter (s : State) (scope : Scope) : State :=
  { s with scopes := scope :: s.scopes }

def className (s : State) : String :=
  (s.cls.map ClassDef.name).getD ""

def fieldName (s : State) : String :=
  (s.field.map (·.field.name)).getD ""

def multipleTypes (s : State) (line : Nat) : LoadError :=
  .multipleTypes line s.className s.fieldName

end State

def beginClass (tag : StartTag) : Except LoadError ClassDef := do
  let name ← tag.required "class" "name"
  let root ← tag.boolean "xmlRootElement"
  return {
    name
    parent := (tag.get? "inheritsFrom").getD "root"
    comment := tag.get? "comment"
    root }

def beginField (tag : StartTag) : Except LoadError FieldCursor := do
  let name ← tag.required "attribute" "name"
  return ⟨⟨name, tag.get? "comment", .classRef ""⟩, false, tag.line⟩

def initialValue (tag : StartTag) : Except LoadError InitialValue := do
  let field ← tag.required tag.name "name"
  let value ← tag.required tag.name "value"
  return ⟨field, value⟩

/-- What is no length counts as 0. -/
def listLength (tag : StartTag) : Nat :=
  ((tag.get? "length").bind fun s => Text.unsigned? 10 64 (Text.trimChars s.toList)).getD 0

def beginList (tag : StartTag) : Except LoadError ListCursor := do
  let type ← tag.required "list" "type"
  let isVariable ← match type with
    | "fixed" => .ok false
    | "variable" => .ok true
    | _ => .error (.unknownListType tag.line type)
  let text ← tag.boolean "couldBeString"
  if isVariable then
    let countField ← tag.required "list" "countFieldName"
    return ⟨true, 0, some countField, text, none⟩
  else
    return ⟨false, listLength tag, none, text, none⟩

/-- Makes the first field of a name count the list at `position`, if the field is a primitive. -/
def linkCount? (countField : String) (position : Nat) : List Field → Option (List Field)
  | [] => none
  | f :: fs =>
    if f.name = countField then
      match f.type with
      | .primitive typeName default _ =>
        some ({ f with type := .primitive typeName default (some position) } :: fs)
      | _ => none
    else (linkCount? countField position fs).map (f :: ·)

def link (s : State) (countField : String) : State :=
  match s.cls with
  | none => s
  | some c =>
    match linkCount? countField c.fields.length c.fields with
    | some fields => { s with cls := some { c with fields } }
    | none =>
      let warning : Diagnostic := ⟨s.className, some s.fieldName, .countNotEarlier countField⟩
      { s with loaded.warnings := s.loaded.warnings ++ [warning] }

def primitiveName (tag : StartTag) : Except LoadError String :=
  tag.required tag.name "type"

def referredClass (tag : StartTag) : Except LoadError String :=
  tag.required tag.name "name"

def addInitialValue (s : State) (value : InitialValue) : State :=
  { s with cls := s.cls.map fun c => { c with initial := c.initial ++ [value] } }

def setType (s : State) (line : Nat) (type : FieldType) : Except LoadError State :=
  match s.field with
  | none => .error (.unexpectedElement line "primitive" "attribute")
  | some f =>
    if f.hasType then .error (s.multipleTypes line)
    else .ok { s with field := some { f with field.type := type, hasType := true } }

def openList (s : State) (tag : StartTag) : Except LoadError State :=
  if s.field.any (·.hasType) then .error (s.multipleTypes tag.line)
  else do
    let l ← beginList tag
    let linked := l.countField.elim s (link s)
    return { linked with
      field := linked.field.map ({ · with hasType := true })
      list := some l }

def setElement (s : State) (tag : StartTag) (element : ElementType) : Except LoadError State :=
  if s.list.any (·.element.isSome) then .error (s.multipleTypes tag.line)
  else
    match s.list with
    | none => .error (.unexpectedElement tag.line tag.name "list")
    | some l => .ok { s with list := some { l with element := some element } }

def addSettings (s : State) (tag : StartTag) : State :=
  let schema := s.loaded.schema
  let settings := (schema.settings tag.name).insertAll tag.attributes
  { s with loaded.schema.backends := schema.backends.insert (Text.lowerAscii tag.name) settings }

/-- An element that means nothing in its scope: one that declares something is refused there, and
any other is passed over. -/
def refuse (s : State) (keyword : Option Keyword) (context : Scope) (tag : StartTag) :
    Except LoadError State :=
  match keyword with
  | some _ => .error (.unexpectedElement tag.line tag.name context.name)
  | none => .ok (s.enter .ignored)

def start (s : State) (tag : StartTag) : Except LoadError State :=
  let keyword := Keyword.ofName? tag.name
  match s.scopes.head? with
  | none => .ok (s.enter .root)
  | some .root =>
    match keyword with
    | some .cls => do
      let c ← beginClass tag
      return { s with cls := some c }.enter .cls
    | _ => .ok ((addSettings s tag).enter .backend)
  | some .cls =>
    match keyword with
    | some .field => do
      let f ← beginField tag
      return { s with field := some f }.enter .field
    | some .initialValue => do
      let value ← initialValue tag
      return (addInitialValue s value).enter .leaf
    | _ => refuse s keyword .cls tag
  | some .field =>
    match keyword with
    | some .primitive => do
      let typeName ← primitiveName tag
      let s ← setType s tag.line (.primitive typeName (tag.get? "defaultValue") none)
      return s.enter .leaf
    | some .classRef => do
      let name ← referredClass tag
      let s ← setType s tag.line (.classRef name)
      return s.enter .leaf
    | some .list => do
      let s ← openList s tag
      return s.enter .list
    | _ => refuse s keyword .field tag
  | some .list =>
    match keyword with
    | some .primitive => do
      let typeName ← primitiveName tag
      let s ← setElement s tag (.primitive typeName)
      return s.enter .leaf
    | some .classRef => do
      let name ← referredClass tag
      let s ← setElement s tag (.ofClass name)
      return s.enter .leaf
    | _ => refuse s keyword .list tag
  | some .backend | some .leaf | some .ignored => .ok (s.enter .ignored)

def closeClass (s : State) (line : Nat) : Except LoadError State :=
  match s.cls with
  | none => .ok s
  | some c =>
    match s.loaded.schema.registry.insert? c with
    | none => .error (.duplicateClass line c.name)
    | some registry => .ok { s with loaded.schema.registry := registry, cls := none }

def closeField (s : State) : Except LoadError State :=
  match s.field with
  | none => .ok s
  | some f =>
    match s.cls with
    | none => .error (.unexpectedElement f.line "attribute" "document")
    | some c =>
      if f.hasType then
        .ok { s with cls := some { c with fields := c.fields ++ [f.field] }, field := none }
      else .error (.missingType f.line c.name f.field.name)

def closeList (s : State) (line : Nat) : Except LoadError State :=
  match s.list with
  | none => .ok s
  | some l =>
    match l.element with
    | none => .error (.missingType line s.className s.fieldName)
    | some element =>
      .ok { s with
        field := s.field.map fun f => { f with field.type := l.type element }
        list := none }

def stop (s : State) (line : Nat) : Except LoadError State :=
  match s.scopes with
  | [] => .ok s
  | scope :: scopes =>
    let s := { s with scopes }
    match scope with
    | .cls => closeClass s line
    | .field => closeField s
    | .list => closeList s line
    | .root | .backend | .leaf | .ignored => .ok s

def step (s : State) : Markup.Event → Except LoadError State
  | .start name attributes line => start s ⟨name, attributes, line⟩
  | .stop _ line => stop s line

end Reader

/-- A document holds `class` elements; any other element in it is a block of settings for the backend
of its name. Keywords are recognised in any case:

    class → attribute → primitive | classRef | list → primitive | classRef
          → initialValue

Other elements inside a class, and all that is inside a block of settings, a primitive, a class
reference or an initial value, are passed over. A variable list makes an earlier primitive field of
the class, if its name is that of the list's count field, the holder of the list's length. -/
def Schema.read (source : String) : Except LoadError Loaded :=
  let w := Markup.walk Reader.step {} source
  match w.stop with
  | none => .ok w.state.loaded
  | some (.markup e) => .error (.markup e)
  | some (.handler e) => .error e

end WireSchema
