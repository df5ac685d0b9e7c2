import WireSchema.Text.Basic
import WireSchema.Text.Case

namespace WireSchema.Naming

/-- Whether an upper-case letter starts a new word, given the letter before it and the one behind:
it does after anything but an underscore or another capital, and after a capital if a small letter
follows, so that acronyms stay together. -/
def startsWord (previous : Option Char) (next : Option Char) : Bool :=
  match previous with
  | none => false
  | some p =>
    if Text.isUpper p then next.any Text.isLower else p != '_'

def snakeChars (previous : Option Char) : List Char → List Char
  | [] => []
  | c :: rest =>
    let here :=
      if Text.isUpper c then
        (if startsWord previous rest.head? then ['_'] else []) ++ Text.toLower c
      else if c == '-' || c == ' ' then ['_']
      else [c]
    here ++ snakeChars (some c) rest

def snake (s : String) : String :=
  String.ofList (snakeChars none s.toList)

def capitalize (s : String) : String :=
  match s.toList with
  | [] => ""
  | c :: rest => String.ofList (Text.toUpper c ++ rest)

def pascal (s : String) : String :=
  String.join ((Text.wordsBy (fun c => c == '_' || c == '-' || c == ' ') s).map capitalize)

end WireSchema.Naming
