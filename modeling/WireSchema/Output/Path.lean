import WireSchema.Text.Basic

namespace WireSchema.Path

def separator : Char := '/'

/-- A path behind another. A path that starts with a slash replaces the one before it. -/
def join (base path : String) : String :=
  if path.toList.head? = some separator then path
  else if base.isEmpty || base.toList.getLast? = some separator then base ++ path
  else base ++ "/" ++ path

def parts (path : String) : List String :=
  (path.toList.splitOnP (· == separator)).map String.ofList

def isAbsolute (path : String) : Bool :=
  path.toList.head? = some separator

/-- What tells paths apart. A part that is empty or a single dot does not count, but for a slash or
a dot at the start. -/
def components (path : String) : List String :=
  let names := (parts path).filter fun part => part != "" && part != "."
  if isAbsolute path then "/" :: names
  else if (parts path).head? = some "." then "." :: names
  else names

/-- Drops slashes, and single dots behind a slash, from the end of a reversed path. -/
def dropTrailing : List Char → List Char
  | '/' :: rest => dropTrailing rest
  | '.' :: '/' :: rest => dropTrailing rest
  | cs => cs

def directory (path : String) : String :=
  let shown := (dropTrailing path.toList.reverse).dropWhile (· != separator)
  let kept := (dropTrailing shown).reverse
  if kept.isEmpty && isAbsolute path then "/" else String.ofList kept

/-- How a path goes on behind the directory `base`, without the slashes and single dots that follow
it. -/
def relativeTo? (base path : String) : Option String :=
  match Text.behind? base.toList path.toList with
  | some [] => some ""
  | some ('/' :: rest) =>
    some ("/".intercalate ((parts (String.ofList rest)).dropWhile fun p => p == "" || p == "."))
  | _ => none

end WireSchema.Path
