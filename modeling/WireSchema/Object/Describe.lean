import WireSchema.Object.Basic
import WireSchema.Text.Quoted

namespace WireSchema

def Scalar.describe (s : Scalar) : String :=
  let word := s.word.toNat
  let int := toString (s.toInt?.getD 0)
  match s.type with
  | .byte => s!"I8({int})"
  | .unsignedByte => s!"U8({int})"
  | .short => s!"I16({int})"
  | .unsignedShort => s!"U16({int})"
  | .int => s!"I32({int})"
  | .unsignedInt => s!"U32({int})"
  | .long => s!"I64({int})"
  | .unsignedLong => s!"U64({int})"
  | .float => "Float(" ++ BinaryFormat.print .single word ++ ")"
  | .double => "Double(" ++ BinaryFormat.print .double word ++ ")"

mutual

def Value.describe : Value → String
  | .scalar s => s.describe
  | .list vs => "List([" ++ ", ".intercalate (Value.describeAll vs) ++ "])"
  | .object o => "Object(" ++ Object.describe o ++ ")"

def Object.describe : Object → String
  | .mk className parent fields =>
    "Object \x7b class: " ++ Text.quoted className ++ ", parent: " ++ Object.describePart parent ++
      ", fields: [" ++ ", ".intercalate (Object.describeFields fields) ++ "] \x7d"

def Object.describePart : Option Object → String
  | none => "None"
  | some p => "Some(" ++ Object.describe p ++ ")"

def Value.describeAll : List Value → List String
  | [] => []
  | v :: vs => Value.describe v :: Value.describeAll vs

def Object.describeFields : List (String × Value) → List String
  | [] => []
  | (n, v) :: fs => ("(" ++ Text.quoted n ++ ", " ++ Value.describe v ++ ")") ::
      Object.describeFields fs

end

end WireSchema
