import WireSchema.Emit.Code
import WireSchema.Emit.Java.Names

namespace WireSchema.Java

open Code (line blank braced opened closed)

def overPositions (name : String) (body : Code) : Code :=
  braced ("for (int idx = 0; idx < " ++ name ++ ".length; idx++)") body

def overElements (type name : String) (body : Code) : Code :=
  braced ("for (" ++ type ++ " x : " ++ name ++ ")") body

def initValue (l : Layout) : FieldInit → String
  | .zero t => zero t
  | .default t v => literal t v
  | .construct c => "new " ++ className c ++ "()"
  | .constructSlots c n => "new " ++ className c ++ "[" ++ toString n ++ "]"
  | .zeroFill t n => "new " ++ scalar t ++ "[" ++ toString n ++ "]"
  | .emptyList =>
    match l with
    | .scalarList t _ => "new ArrayList<" ++ boxed t ++ ">()"
    | .nestedList c _ => "new ArrayList<" ++ className c ++ ">()"
    | _ => "null"

def fieldBlock (step : InitStep) (name : String) : Code :=
  match step with
  | .field f init =>
    f.comment.toList.flatMap (fun c => line ("/** " ++ c ++ " */")) ++
      line ("protected " ++ fieldType f.layout ++ " " ++ name ++ " = " ++ initValue f.layout init ++
        ";") ++
      blank
  | .parent _ | .assign _ => []

def fields (p : Plan) (names : List String) : Code :=
  Code.ofSteps InitStep.field? "super" fieldBlock p.initSteps names

def slotsBlock (f : FieldPlan) (name : String) : Code :=
  match f.layout with
  | .fixedNested c _ =>
    overPositions name (line (name ++ "[idx] = new " ++ className c ++ "();"))
  | _ => []

def assignBlock (a : Assignment) : Code :=
  line (setter (fieldName a.field) ++ "(" ++ literal a.type a.value ++ ");")

def constructorBlock : InitStep → Code
  | .assign a => assignBlock a
  | .parent _ | .field .. => []

def constructorBody (p : Plan) (names : List String) : Code :=
  (p.fields.zip names).flatMap (fun (f, n) => slotsBlock f n) ++
    p.initSteps.flatMap constructorBlock

def sizeBlock (term : SizeTerm) (name : String) : Code :=
  match term with
  | .parent _ | .nested .. => line ("marshalSize += " ++ name ++ ".getMarshalledSize();")
  | .bytes _ count => line ("marshalSize += " ++ toString count ++ "; // " ++ name)
  | .perElement _ width =>
    line ("marshalSize += " ++ name ++ ".size() * " ++ toString width ++ ";")
  | .elementSum _ c =>
    overElements (className c) name (line "marshalSize += x.getMarshalledSize();")

def sizeName (p : Plan) (names : List String) (term : SizeTerm) : String :=
  term.field?.elim "super" (members.identifierOf p names)

def sizeBody (p : Plan) (names : List String) (terms : List SizeTerm) : Code :=
  line "int marshalSize = 0;" ++
    terms.flatMap (fun term => sizeBlock term (sizeName p names term)) ++
    line "return marshalSize;"

/-- Writes an expression; `isBoxed` says that it is an object and not a number. -/
def writeCall (t : Primitive) (expr : String) (isBoxed : Bool) : String :=
  match t with
  | .byte | .unsignedByte => "dos.writeByte(" ++ expr ++ ");"
  | .short | .unsignedShort => "dos.writeShort(" ++ expr ++ ");"
  | .int => "dos.writeInt(" ++ expr ++ ");"
  | .unsignedInt =>
    if isBoxed then "dos.writeInt(" ++ expr ++ ".intValue());"
    else "dos.writeInt((int) " ++ expr ++ ");"
  | .long | .unsignedLong => "dos.writeLong(" ++ expr ++ ");"
  | .float => "dos.writeFloat(" ++ expr ++ ");"
  | .double => "dos.writeDouble(" ++ expr ++ ");"

def readCall : Primitive → String
  | .byte => "dis.readByte()"
  | .unsignedByte => "(short) dis.readUnsignedByte()"
  | .short => "dis.readShort()"
  | .unsignedShort => "dis.readUnsignedShort()"
  | .int => "dis.readInt()"
  | .unsignedInt => "dis.readInt() & 0xFFFFFFFFL"
  | .long | .unsignedLong => "dis.readLong()"
  | .float => "dis.readFloat()"
  | .double => "dis.readDouble()"

def marshalBlock (step : WireStep) (name : String) : Code :=
  match step with
  | .parent _ => line (name ++ ".marshal(dos);")
  | .field f =>
    match f.layout with
    | .scalar t => line (writeCall t name false)
    | .lengthOf t list => line (writeCall t (fieldName list ++ ".size()") false)
    | .nested _ => line (name ++ ".marshal(dos);")
    | .fixedScalars t _ => overPositions name (line (writeCall t (name ++ "[idx]") false))
    | .scalarList t _ => overElements (boxed t) name (line (writeCall t "x" true))
    | .fixedNested c _ | .nestedList c _ =>
      overElements (className c) name (line "x.marshal(dos);")

def marshalBody (p : Plan) (names : List String) : Code :=
  Code.ofSteps WireStep.field? "super" marshalBlock p.wireSteps names

/-- Clears a variable list and opens the loop that reads its elements, as many as the count field
says. The loop is left open. A count that can be negative is refused if it is. -/
def openListRead (owner : String) (f : FieldPlan) (name : String) : Code :=
  match f.layout.count? with
  | none => []
  | some count =>
    let counter := fieldName count.field
    (if count.type.isSigned || count.type = .unsignedLong then
      line ("if (" ++ counter ++ " < 0) throw new IOException(\"" ++ owner ++ "." ++ f.name ++
        ": invalid element count\");")
    else []) ++
    line (name ++ ".clear();") ++
    opened ("for (int idx = 0; idx < " ++ counter ++ "; idx++)")

def unmarshalBlock (owner : String) (step : WireStep) (name : String) : Code :=
  match step with
  | .parent _ => line (name ++ ".unmarshal(dis);")
  | .field f =>
    match f.layout with
    | .scalar t | .lengthOf t _ => line (name ++ " = " ++ readCall t ++ ";")
    | .nested _ => line (name ++ ".unmarshal(dis);")
    | .fixedScalars t _ => overPositions name (line (name ++ "[idx] = " ++ readCall t ++ ";"))
    | .fixedNested .. => overPositions name (line (name ++ "[idx].unmarshal(dis);"))
    | .scalarList t _ =>
      openListRead owner f name ++ line (name ++ ".add(" ++ readCall t ++ ");") ++ closed
    | .nestedList c _ =>
      openListRead owner f name ++
        (line (className c ++ " x = new " ++ className c ++ "();") ++ line "x.unmarshal(dis);" ++
          line ("this." ++ name ++ ".add(x);")) ++ closed

def unmarshalBody (p : Plan) (names : List String) : Code :=
  Code.ofSteps WireStep.field? "super" (unmarshalBlock p.name) p.wireSteps names

def equalityTest (f : FieldPlan) (name : String) : String :=
  match f.layout with
  | .scalar _ => name ++ " == rhs." ++ name
  | .lengthOf _ list => fieldName list ++ ".size() == rhs." ++ fieldName list ++ ".size()"
  | .nested _ | .scalarList .. | .nestedList .. => name ++ ".equals(rhs." ++ name ++ ")"
  | .fixedScalars .. | .fixedNested .. => "Arrays.equals(" ++ name ++ ", rhs." ++ name ++ ")"

def equalityBlock (term : EqualityTerm) (name : String) : Code :=
  match term with
  | .parent _ => line ("if (!" ++ name ++ ".equalsImpl(rhs)) ivarsEqual = false;")
  | .value f | .elements f => line ("if (!(" ++ equalityTest f name ++ ")) ivarsEqual = false;")

def equalityBody (p : Plan) (names : List String) : Code :=
  line "boolean ivarsEqual = true;" ++
    line ("final " ++ className p.name ++ " rhs = (" ++ className p.name ++ ") obj;") ++
    Code.ofSteps EqualityTerm.field? "super" equalityBlock p.equalityTerms names ++
    line "return ivarsEqual;"

end WireSchema.Java
