import WireSchema.Emit.Java.Bodies
import WireSchema.Schema.Settings

namespace WireSchema.Java

open Code (line blank braced)

def packageName (settings : Settings) : String :=
  settings.getD "package" "pdugen.generated"

def imports (p : Plan) (settings : Settings) : Code :=
  (if p.root then line "import java.io.ByteArrayOutputStream;" else []) ++
  line "import java.io.DataInputStream;" ++
  line "import java.io.DataOutputStream;" ++
  line "import java.io.IOException;" ++
  (if p.fields.any (·.layout.isVariableList) then
    line "import java.util.ArrayList;" ++ line "import java.util.List;"
  else []) ++
  (if p.fields.any (·.layout.isFixedList) then line "import java.util.Arrays;" else []) ++
  (if p.fields.any (·.textElement?.isSome) then line "import java.nio.charset.StandardCharsets;"
  else []) ++
  (settings.words "imports").flatMap fun path => line ("import " ++ path ++ ";")

def comment (text : Option String) : Code :=
  text.toList.flatMap fun c => line "/**" ++ line (" * " ++ c) ++ line " */"

def heading (p : Plan) : String :=
  "public class " ++ className p.name ++
    match p.parent with
    | some c => " extends " ++ className c
    | none => ""

def constructor (p : Plan) (names : List String) : Code :=
  braced ("public " ++ className p.name ++ "()") (constructorBody p names) ++ blank

def marshalledSize (p : Plan) (names : List String) (terms : List SizeTerm) : Code :=
  braced "public int getMarshalledSize()" (sizeBody p names terms) ++ blank

def textAccessors (t : Primitive) (name : String) : Code :=
  let element := if t = .unsignedByte then "(short) (bytes[idx] & 0xFF)" else "bytes[idx]"
  braced ("public String " ++ textGetter name ++ "()")
    (line "int len = 0;" ++
      braced ("while (len < this." ++ name ++ ".length && this." ++ name ++ "[len] != 0)")
        (line "len++;") ++
      line "byte[] bytes = new byte[len];" ++
      braced "for (int idx = 0; idx < len; idx++)"
        (line ("bytes[idx] = (byte) this." ++ name ++ "[idx];")) ++
      line "return new String(bytes, StandardCharsets.UTF_8);") ++
    blank ++
    braced ("public void " ++ textSetter name ++ "(String value)")
      (line "byte[] bytes = value.getBytes(StandardCharsets.UTF_8);" ++
        overPositions ("this." ++ name)
          (line ("this." ++ name ++ "[idx] = idx < bytes.length ? " ++ element ++ " : 0;"))) ++
    blank

def accessors (f : FieldPlan) (name : String) : Code :=
  let type := fieldType f.layout
  let result := match f.layout with
    | .lengthOf t list => "(" ++ scalar t ++ ") " ++ fieldName list ++ ".size()"
    | _ => name
  braced ("public " ++ type ++ " " ++ getter name ++ "()") (line ("return " ++ result ++ ";")) ++
    blank ++
    braced ("public void " ++ setter name ++ "(" ++ type ++ " value)")
      (line ("this." ++ name ++ " = value;")) ++
    blank ++
    match f.textElement? with
    | some t => textAccessors t name
    | none => []

def marshal (p : Plan) (names : List String) : Code :=
  braced "public void marshal(DataOutputStream dos) throws IOException" (marshalBody p names) ++
    blank

def marshalToArray (p : Plan) : Code :=
  if p.root then
    braced "public byte[] marshal() throws IOException"
      (line "ByteArrayOutputStream baos = new ByteArrayOutputStream(getMarshalledSize());" ++
        line "marshal(new DataOutputStream(baos));" ++ line "return baos.toByteArray();") ++
      blank
  else []

def unmarshal (p : Plan) (names : List String) : Code :=
  braced "public void unmarshal(DataInputStream dis) throws IOException" (unmarshalBody p names) ++
    blank

def equality (p : Plan) (names : List String) : Code :=
  line "@Override" ++
    braced "public boolean equals(Object obj)"
      (line "if (this == obj) return true;" ++
        line "if (obj == null || getClass() != obj.getClass()) return false;" ++
        line "return equalsImpl(obj);") ++
    blank ++
    (if p.parent.isSome then line "@Override" else []) ++
    braced "public boolean equalsImpl(Object obj)" (equalityBody p names)

/-- The setting `package` names the package of a class, and `imports` adds to what is imported. -/
def classUnit (p : Plan) (settings : Settings) : Except PlanError Code := do
  let terms ← p.sizeTerms
  let names ← members.identifiers p
  return line "// Generated by pdugen. Do not edit." ++
    line ("package " ++ packageName settings ++ ";") ++ blank ++
    imports p settings ++ blank ++
    comment p.comment ++
    braced (heading p)
      (fields p names ++ constructor p names ++ marshalledSize p names terms ++
        (p.fields.zip names).flatMap (fun (f, n) => accessors f n) ++
        marshal p names ++ marshalToArray p ++ unmarshal p names ++ equality p names)

end WireSchema.Java
