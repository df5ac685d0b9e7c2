import WireSchema.Emit.Code
import WireSchema.Emit.Rust.Names

namespace WireSchema.Rust

open Code (line braced bracedThen)

/-- A member of the inherited part `depth` levels up. -/
def memberPath (base : String) (depth : Nat) (member : String) : String :=
  base ++ String.join (List.replicate depth ".parent") ++ "." ++ member

def initValue : FieldInit → String
  | .zero t => zero t
  | .default t l => literal t l
  | .construct c => typeName c ++ "::default()"
  | .constructSlots c _ => "std::array::from_fn(|_| " ++ typeName c ++ "::default())"
  | .zeroFill t n => "[" ++ zero t ++ "; " ++ toString n ++ "]"
  | .emptyList => "Vec::new()"

def initBlock (step : InitStep) (name : String) : Code :=
  match step with
  | .parent c => line (name ++ ": " ++ typeName c ++ "::default(),")
  | .field _ init => line (name ++ ": " ++ initValue init ++ ",")
  | .assign _ => []

def assignBlock (a : Assignment) : Code :=
  line (memberPath "s" a.depth (fieldName a.field) ++ " = " ++ literal a.type a.value ++ ";")

/-- A field for which no name is left is not initialised. -/
def initialisers : List InitStep → List String → Code
  | [], _ => []
  | .field f init :: steps, name :: names =>
    initBlock (.field f init) name ++ initialisers steps names
  | .field .. :: steps, [] => initialisers steps []
  | step :: steps, names => initBlock step "parent" ++ initialisers steps names

def defaultBody (p : Plan) (names : List String) : Code :=
  let fields := initialisers p.initSteps names
  if p.assignments.isEmpty then braced "Self" fields
  else bracedThen "let mut s = Self" fields ";" ++ p.assignments.flatMap assignBlock ++ line "s"

def writeCall (t : Primitive) (expr : String) : String :=
  match t with
  | .byte | .unsignedByte => "w.write_" ++ scalar t ++ "(" ++ expr ++ ")?;"
  | _ => "w.write_" ++ scalar t ++ "::<BigEndian>(" ++ expr ++ ")?;"

def readCall (t : Primitive) : String :=
  match t with
  | .byte | .unsignedByte => "r.read_" ++ scalar t ++ "()?"
  | _ => "r.read_" ++ scalar t ++ "::<BigEndian>()?"

def ioError (kind message : String) : Code :=
  line ("io::Error::new(io::ErrorKind::" ++ kind ++ ", \"" ++ message ++ "\")")

def marshalBlock (className : String) (step : WireStep) (name : String) : Code :=
  match step with
  | .parent _ => line ("self." ++ name ++ ".marshal(w)?;")
  | .field f =>
    match f.layout with
    | .scalar t => line (writeCall t ("self." ++ name))
    | .lengthOf t list =>
      bracedThen ("let len = " ++ scalar t ++ "::try_from(self." ++ fieldName list ++
          ".len()).map_err(|_|")
        (ioError "InvalidInput" (className ++ "." ++ f.name ++ ": list too long")) ")?;" ++
      line (writeCall t "len")
    | .nested _ => line ("self." ++ name ++ ".marshal(w)?;")
    | .fixedScalars t _ | .scalarList t _ =>
      braced ("for x in self." ++ name ++ ".iter()") (line (writeCall t "*x"))
    | .fixedNested .. | .nestedList .. =>
      braced ("for x in self." ++ name ++ ".iter()") (line "x.marshal(w)?;")

def marshalBody (p : Plan) (names : List String) : Code :=
  Code.ofSteps WireStep.field? "parent" (marshalBlock p.name) p.wireSteps names ++ line "Ok(())"

/-- Reads the element count of a list into `n`, and then as many elements. -/
def readList (className field name : String) (count : CountSource) (element : Code) : Code :=
  bracedThen ("let n = usize::try_from(" ++ memberPath "self" count.depth (fieldName count.field) ++
      ").map_err(|_|")
    (ioError "InvalidData" (className ++ "." ++ field ++ ": invalid element count")) ")?;" ++
  line ("self." ++ name ++ ".clear();") ++
  braced "for _ in 0..n" element

def unmarshalBlock (className : String) (step : WireStep) (name : String) : Code :=
  match step with
  | .parent _ => line ("self." ++ name ++ ".unmarshal(r)?;")
  | .field f =>
    match f.layout with
    | .scalar t | .lengthOf t _ => line ("self." ++ name ++ " = " ++ readCall t ++ ";")
    | .nested _ => line ("self." ++ name ++ ".unmarshal(r)?;")
    | .fixedScalars t _ =>
      braced ("for x in self." ++ name ++ ".iter_mut()") (line ("*x = " ++ readCall t ++ ";"))
    | .fixedNested .. =>
      braced ("for x in self." ++ name ++ ".iter_mut()") (line "x.unmarshal(r)?;")
    | .scalarList t count =>
      readList className f.name name count
        (line ("self." ++ name ++ ".push(" ++ readCall t ++ ");"))
    | .nestedList c count =>
      readList className f.name name count
        (line ("let mut x = " ++ typeName c ++ "::default();") ++ line "x.unmarshal(r)?;" ++
          line ("self." ++ name ++ ".push(x);"))

def unmarshalBody (p : Plan) (names : List String) : Code :=
  Code.ofSteps WireStep.field? "parent" (unmarshalBlock p.name) p.wireSteps names ++ line "Ok(())"

def sizeBlock (term : SizeTerm) (name : String) : Code :=
  match term with
  | .parent _ | .nested .. => line ("size += self." ++ name ++ ".marshalled_size();")
  | .bytes _ count => line ("size += " ++ toString count ++ "; // " ++ name)
  | .perElement _ width => line ("size += self." ++ name ++ ".len() * " ++ toString width ++ ";")
  | .elementSum .. =>
    line ("size += self." ++ name ++ ".iter().map(|x| x.marshalled_size()).sum::<usize>();")

def sizeName (p : Plan) (names : List String) (term : SizeTerm) : String :=
  term.field?.elim "parent" (members.identifierOf p names)

def sizeBody (p : Plan) (names : List String) (terms : List SizeTerm) : Code :=
  if terms.isEmpty then line "0"
  else
    line "let mut size = 0;" ++
      terms.flatMap (fun term => sizeBlock term (sizeName p names term)) ++ line "size"

def equalityBlock (term : EqualityTerm) (name : String) : Code :=
  let same (a : String) : Code := line ("eq &= self." ++ a ++ " == other." ++ a ++ ";")
  match term with
  | .parent _ | .elements _ => same name
  | .value f =>
    match f.layout with
    | .lengthOf _ list => same (fieldName list ++ ".len()")
    | _ => same name

def equalityBody (p : Plan) (names : List String) : Code :=
  if p.equalityTerms.isEmpty then line "true"
  else
    line "let mut eq = true;" ++
      Code.ofSteps EqualityTerm.field? "parent" equalityBlock p.equalityTerms names ++ line "eq"

end WireSchema.Rust
