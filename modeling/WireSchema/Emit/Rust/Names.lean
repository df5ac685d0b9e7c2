import WireSchema.Emit.Members
import WireSchema.Emit.Naming

namespace WireSchema.Rust

def keywords : List String :=
  ["as", "async", "await", "break", "const", "continue", "crate", "dyn", "else", "enum", "extern",
   "false", "fn", "for", "if", "impl", "in", "let", "loop", "match", "mod", "move", "mut", "pub",
   "ref", "return", "self", "Self", "static", "struct", "super", "trait", "true", "type", "unsafe",
   "use", "where", "while", "abstract", "become", "box", "do", "final", "macro", "override", "priv",
   "try", "typeof", "unsized", "virtual", "yield"]

def escape (s : String) : String :=
  if keywords.contains s then s ++ "_" else s

def moduleName (className : String) : String :=
  escape (Naming.snake className)

def typeName (className : String) : String :=
  Naming.pascal className

def fieldName (field : String) : String :=
  escape (Naming.snake field)

def textGetter (field : String) : String :=
  Naming.snake field ++ "_str"

def textSetter (field : String) : String :=
  "set_" ++ Naming.snake field ++ "_str"

def fieldMethods (f : FieldPlan) (identifier : String) : List String :=
  (match f.layout with
    | .lengthOf .. => [identifier]
    | _ => []) ++
  (if f.textElement?.isSome then [textGetter f.name, textSetter f.name] else [])

def members : MemberRules where
  identifier := fieldName
  isReserved p name := p.parent.isSome && name == "parent"
  methods := ["marshal", "unmarshal", "marshalled_size", "marshal_to_vec", "default"]
  fieldMethods := fieldMethods

def scalar : Primitive → String
  | .byte => "i8"
  | .unsignedByte => "u8"
  | .short => "i16"
  | .unsignedShort => "u16"
  | .int => "i32"
  | .unsignedInt => "u32"
  | .long => "i64"
  | .unsignedLong => "u64"
  | .float => "f32"
  | .double => "f64"

def fieldType : Layout → String
  | .scalar t | .lengthOf t _ => scalar t
  | .nested c => typeName c
  | .fixedScalars t n => "[" ++ scalar t ++ "; " ++ toString n ++ "]"
  | .fixedNested c n => "[" ++ typeName c ++ "; " ++ toString n ++ "]"
  | .scalarList t _ => "Vec<" ++ scalar t ++ ">"
  | .nestedList c _ => "Vec<" ++ typeName c ++ ">"

def literal (t : Primitive) (l : Literal) : String :=
  match l with
  | .int n => if t.isFloat then BinaryFormat.print .double l.toDouble.toNat else toString n
  | .real w => BinaryFormat.print .double w.toNat

def zero (t : Primitive) : String :=
  if t.isFloat then "0.0" else "0"

end WireSchema.Rust
