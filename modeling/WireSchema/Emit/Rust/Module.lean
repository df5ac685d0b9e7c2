import WireSchema.Emit.Rust.Bodies
import WireSchema.Schema.Settings

namespace WireSchema.Rust

open Code (line blank braced)

def notice : Code := line "// Generated by pdugen. Do not edit."

def comment (text : Option String) : Code :=
  text.toList.flatMap fun c => line ("/// " ++ c)

def referredClasses (p : Plan) : List String :=
  let classes := p.parent.toList ++ (p.fields.filterMap (·.layout.className?)).filter (· != p.name)
  classes.eraseDups.mergeSort (· ≤ ·)

def imports (p : Plan) (settings : Settings) : Code :=
  let scalars := p.fields.filterMap (·.layout.scalarType?)
  (if scalars.isEmpty then []
    else if scalars.any (1 < ·.width) then
      line "use byteorder::{BigEndian, ReadBytesExt, WriteBytesExt};"
    else line "use byteorder::{ReadBytesExt, WriteBytesExt};") ++
  line "use std::io::{self, Read, Write};" ++
  (referredClasses p).flatMap (fun c =>
    line ("use super::" ++ moduleName c ++ "::" ++ typeName c ++ ";")) ++
  (settings.words "imports").flatMap fun path => line ("use " ++ path ++ ";")

def structDef (p : Plan) (names : List String) (settings : Settings) : Code :=
  let derives := ["Debug", "Clone"] ++ settings.words "derives"
  let parent := p.parent.toList.flatMap fun c => line ("pub parent: " ++ typeName c ++ ",")
  let fields := (p.fields.zip names).flatMap fun (f, name) =>
    comment f.comment ++ line ("pub " ++ name ++ ": " ++ fieldType f.layout ++ ",")
  comment p.comment ++ line ("#[derive(" ++ ", ".intercalate derives ++ ")]") ++
    braced ("pub struct " ++ typeName p.name) (parent ++ fields)

def defaultImpl (p : Plan) (names : List String) : Code :=
  braced ("impl Default for " ++ typeName p.name)
    (braced "fn default() -> Self" (defaultBody p names))

/-- The present length of a list, for a field that holds it on the wire. -/
def lengthAccessor (f : FieldPlan) (name : String) : Code :=
  match f.layout with
  | .lengthOf _ list =>
    line ("/// Live length of `" ++ list ++ "`; this is what goes on the wire.") ++
      braced ("pub fn " ++ name ++ "(&self) -> usize")
        (line ("self." ++ fieldName list ++ ".len()")) ++
      blank
  | _ => []

def textAccessors (f : FieldPlan) : Code :=
  match f.textElement? with
  | none => []
  | some t =>
    let field := fieldName f.name
    let (asBytes, asElement) :=
      if t = .byte then (".map(|b| *b as u8)", " as i8") else (".copied()", "")
    line ("/// `" ++ f.name ++ "` as text, up to the first NUL.") ++
      braced ("pub fn " ++ textGetter f.name ++ "(&self) -> String")
        (line ("let bytes: Vec<u8> = self." ++ field ++ ".iter()" ++ asBytes ++
            ".take_while(|b| *b != 0).collect();") ++
          line "String::from_utf8_lossy(&bytes).into_owned()") ++
      blank ++
      line ("/// Copy `text` into `" ++ f.name ++ "`, truncating or padding with NUL.") ++
      braced ("pub fn " ++ textSetter f.name ++ "(&mut self, text: &str)")
        (line "let bytes = text.as_bytes();" ++
          braced ("for (i, slot) in self." ++ field ++ ".iter_mut().enumerate()")
            (line ("*slot = bytes.get(i).copied().unwrap_or(0)" ++ asElement ++ ";"))) ++
      blank

/-- A parameter that a function does not use starts with an underscore. -/
def parameter (p : Plan) (name : String) : String :=
  if p.wireSteps.isEmpty then "_" ++ name else name

def marshal (p : Plan) (names : List String) : Code :=
  braced ("pub fn marshal<W: Write>(&self, " ++ parameter p "w" ++
    ": &mut W) -> io::Result<()>") (marshalBody p names)

def unmarshal (p : Plan) (names : List String) : Code :=
  braced ("pub fn unmarshal<R: Read>(&mut self, " ++ parameter p "r" ++
    ": &mut R) -> io::Result<()>") (unmarshalBody p names)

def marshalledSize (p : Plan) (names : List String) (terms : List SizeTerm) : Code :=
  braced "pub fn marshalled_size(&self) -> usize" (sizeBody p names terms)

def marshalToVec (p : Plan) : Code :=
  if p.root then
    blank ++
      braced "pub fn marshal_to_vec(&self) -> io::Result<Vec<u8>>"
        (line "let mut buf = Vec::with_capacity(self.marshalled_size());" ++
          line "self.marshal(&mut buf)?;" ++ line "Ok(buf)")
  else []

def inherentImpl (p : Plan) (names : List String) (terms : List SizeTerm) : Code :=
  braced ("impl " ++ typeName p.name)
    ((p.fields.zip names).flatMap (fun (f, name) => lengthAccessor f name) ++
      p.fields.flatMap textAccessors ++
      marshal p names ++ blank ++
      unmarshal p names ++ blank ++
      marshalledSize p names terms ++
      marshalToVec p)

def equalityImpl (p : Plan) (names : List String) : Code :=
  let other := if p.equalityTerms.isEmpty then "_other" else "other"
  braced ("impl PartialEq for " ++ typeName p.name)
    (braced ("fn eq(&self, " ++ other ++ ": &Self) -> bool") (equalityBody p names))

/-- The inherited part of a struct is its member `parent`. The setting `derives` adds to what is
derived, and `imports` to what is imported. -/
def classModule (p : Plan) (settings : Settings) : Except PlanError Code := do
  let terms ← p.sizeTerms
  let names ← members.identifiers p
  return notice ++ blank ++ imports p settings ++ blank ++
    structDef p names settings ++ blank ++
    defaultImpl p names ++ blank ++
    inherentImpl p names terms ++ blank ++
    equalityImpl p names

def index (classes : List String) (settings : Settings) : Code :=
  line ("//! " ++ settings.getD "doc" "Generated protocol data units.") ++ notice ++ blank ++
    classes.flatMap (fun c => line ("pub mod " ++ moduleName c ++ ";")) ++ blank ++
    classes.flatMap fun c => line ("pub use " ++ moduleName c ++ "::" ++ typeName c ++ ";")

end WireSchema.Rust
