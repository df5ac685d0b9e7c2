namespace WireSchema

inductive CodeLine where
  | line (text : String)
  /-- a line behind which a block starts -/
  | opening (text : String)
  /-- a line before which a block ends -/
  | closing (text : String)
  deriving DecidableEq, Repr

abbrev Code := List CodeLine

namespace Code

def line (text : String) : Code := [.line text]

def blank : Code := line ""

def block (first : String) (body : Code) (last : String) : Code :=
  .opening first :: body ++ [.closing last]

abbrev opened (first : String) : Code := [.opening (first ++ " \x7b")]

abbrev closed : Code := [.closing "\x7d"]

abbrev braced (first : String) (body : Code) : Code :=
  block (first ++ " \x7b") body "\x7d"

abbrev bracedThen (first : String) (body : Code) (last : String) : Code :=
  block (first ++ " \x7b") body ("\x7d" ++ last)

/-- An empty line is not indented. -/
def renderLine (unit : String) (level : Nat) (text : String) : String :=
  if text.isEmpty then "\n" else String.join (List.replicate level unit) ++ text ++ "\n"

/-- Closing a block that was not opened leaves the indentation at nothing. -/
def renderLines (unit : String) (level : Nat) : Code → List String
  | [] => []
  | .line text :: rest => renderLine unit level text :: renderLines unit level rest
  | .opening text :: rest => renderLine unit level text :: renderLines unit (level + 1) rest
  | .closing text :: rest =>
    renderLine unit (level - 1) text :: renderLines unit (level - 1) rest

def render (unit : String) (code : Code) : String :=
  String.join (renderLines unit 0 code)

end Code

end WireSchema
