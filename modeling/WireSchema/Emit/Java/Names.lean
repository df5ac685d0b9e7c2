import WireSchema.Emit.Members
import WireSchema.Emit.Naming

namespace WireSchema.Java

def keywords : List String :=
  ["abstract", "assert", "boolean", "break", "byte", "case", "catch", "char", "class", "const",
   "continue", "default", "do", "double", "else", "enum", "extends", "final", "finally", "float",
   "for", "goto", "if", "implements", "import", "instanceof", "int", "interface", "long", "native",
   "new", "package", "private", "protected", "public", "return", "short", "static", "strictfp",
   "super", "switch", "synchronized", "this", "throw", "throws", "transient", "try", "void",
   "volatile", "while", "true", "false", "null"]

def reserved : List String :=
  ["marshalledSize", "marshal", "unmarshal", "equalsImpl", "dos", "dis", "obj", "rhs", "ivarsEqual",
   "marshalSize", "idx"]

def className (name : String) : String :=
  Naming.pascal name

def fieldName (field : String) : String :=
  if keywords.contains field then field ++ "_" else field

def getter (identifier : String) : String :=
  "get" ++ Naming.capitalize identifier

def setter (identifier : String) : String :=
  "set" ++ Naming.capitalize identifier

def textGetter (identifier : String) : String :=
  "get" ++ Naming.capitalize identifier ++ "AsString"

def textSetter (identifier : String) : String :=
  "setByString" ++ Naming.capitalize identifier

def fieldMethods (f : FieldPlan) (identifier : String) : List String :=
  [getter identifier, setter identifier] ++
    if f.textElement?.isSome then [textGetter identifier, textSetter identifier] else []

def members : MemberRules where
  identifier := fieldName
  isReserved _ name := reserved.contains name
  methods := []
  fieldMethods := fieldMethods

/-- An unsigned type is held by the next wider signed one. `unsigned long` has no wider one and is
held by `long` with the same bits. -/
def scalar : Primitive → String
  | .byte => "byte"
  | .unsignedByte | .short => "short"
  | .unsignedShort | .int => "int"
  | .unsignedInt | .long | .unsignedLong => "long"
  | .float => "float"
  | .double => "double"

def boxed : Primitive → String
  | .byte => "Byte"
  | .unsignedByte | .short => "Short"
  | .unsignedShort | .int => "Integer"
  | .unsignedInt | .long | .unsignedLong => "Long"
  | .float => "Float"
  | .double => "Double"

def fieldType : Layout → String
  | .scalar t | .lengthOf t _ => scalar t
  | .nested c => className c
  | .fixedScalars t _ => scalar t ++ "[]"
  | .fixedNested c _ => className c ++ "[]"
  | .scalarList t _ => "List<" ++ boxed t ++ ">"
  | .nestedList c _ => "List<" ++ className c ++ ">"

def literal (t : Primitive) (l : Literal) : String :=
  let n := l.toInt?.getD 0
  match t with
  | .float =>
    BinaryFormat.print .single (BinaryFormat.convert .double .single l.toDouble.toNat) ++ "f"
  | .double => BinaryFormat.print .double l.toDouble.toNat
  | .byte => "(byte) " ++ toString n
  | .unsignedByte | .short => "(short) " ++ toString n
  | .unsignedShort | .int => toString n
  | .unsignedInt | .long | .unsignedLong => toString (BitVec.ofInt 64 n).toInt ++ "L"

def zero (t : Primitive) : String :=
  literal t (.int 0)

end WireSchema.Java
