import WireSchema.Output.Entry
import WireSchema.Output.Path

namespace WireSchema

inductive FileProblem where
  | notFound
  | fileExists
  | notDirectory
  | isDirectory
  | nameTooLong
  | invalidName
  | invalidText
  | other (reason : String)
  deriving DecidableEq, Repr

def FileProblem.message : FileProblem → String
  | notFound => "No such file or directory (os error 2)"
  | fileExists => "File exists (os error 17)"
  | notDirectory => "Not a directory (os error 20)"
  | isDirectory => "Is a directory (os error 21)"
  | nameTooLong => "File name too long (os error 36)"
  | invalidName => "file name contained an unexpected NUL byte"
  | invalidText => "stream did not contain valid UTF-8"
  | other reason => reason

/-- A place in a tree: the names that lead to it from the root, the last of them first. -/
abbrev Location := List String

def Location.step (l : Location) (part : String) : Location :=
  match part with
  | "" | "." => l
  | ".." => l.tail
  | name => name :: l

structure FileTree where
  root : Entry
  /-- where paths without a leading slash start -/
  working : Location

namespace FileTree

def empty (working : Location) : FileTree :=
  ⟨working.foldl (fun e name => .directory [(name, e)]) (.directory []), working⟩

def longestName : Nat := 255

def longestPath : Nat := 4095

variable (t : FileTree)

def find? (l : Location) : Option Entry :=
  Entry.find? l.reverse t.root

theorem find?_cons (name : String) (l : Location) :
    t.find? (name :: l) = (t.find? l).bind (·.child? name) := by
  rw [find?, find?, List.reverse_cons, Entry.find?_append]
  congr 1
  funext e
  rw [Entry.find?]
  cases e.child? name <;> rfl

def insert (l : Location) (e : Entry) : FileTree :=
  { t with root := Entry.insert e l.reverse t.root }

def text? (l : Location) : Option String :=
  match t.find? l with
  | some (.file text) => some text
  | _ => none

def origin (path : String) : Location :=
  if Path.isAbsolute path then [] else t.working

def start (path : String) : Except FileProblem (Location × Entry) :=
  let l := t.origin path
  if path.toList.contains '\x00' then .error .invalidName
  else if longestPath < path.utf8ByteSize then .error .nameTooLong
  else
    match t.find? l with
    | none => .error .notFound
    | some (.file _) => .error .notDirectory
    | some (.directory entries) => .ok (l, .directory entries)

def entryFrom? (l : Location) (here : Entry) (part : String) : Option Entry :=
  match part with
  | "" | "." => some here
  | ".." => t.find? l.tail
  | name => here.child? name

theorem entryFrom?_eq_find?_step {l : Location} {here : Entry} (h : t.find? l = some here)
    (part : String) : t.entryFrom? l here part = t.find? (l.step part) := by
  unfold entryFrom? Location.step
  split
  · exact h.symm
  · exact h.symm
  · rfl
  · rw [find?_cons, h, Option.bind_some]

def follow (l : Location) (here : Entry) : List String → Except FileProblem (Location × Entry)
  | [] => .ok (l, here)
  | part :: parts =>
    let next := l.step part
    if longestName < part.utf8ByteSize then .error .nameTooLong
    else
      match t.entryFrom? l here part with
      | none => .error .notFound
      | some (.directory entries) => follow next (.directory entries) parts
      | some (.file text) => if parts.isEmpty then .ok (next, .file text) else .error .notDirectory

def locate (path : String) (parts : List String) : Except FileProblem (Location × Entry) :=
  (t.start path).bind fun (l, here) => t.follow l here parts

/-- Makes the directories along the parts of a path that are not there. Those made before a problem
is met remain. A file in the way is `blocked` as long as all directories before it were there;
behind one that has been made it is met as the next to make, and exists. -/
def makeFrom (t : FileTree) (blocked : FileProblem) (l : Location) (here : Entry) :
    List String → FileTree × Option FileProblem
  | [] => (t, none)
  | part :: parts =>
    let next := l.step part
    if longestName < part.utf8ByteSize then (t, some .nameTooLong)
    else
      match t.entryFrom? l here part with
      | none => makeFrom (t.insert next (.directory [])) .fileExists next (.directory []) parts
      | some (.directory entries) => makeFrom t blocked next (.directory entries) parts
      | some (.file _) => (t, some (if parts.isEmpty then .fileExists else blocked))

def makeDirectories (path : String) : FileTree × Option FileProblem :=
  if path.isEmpty then (t, none)
  else
    match t.start path with
    | .error problem => (t, some problem)
    | .ok (l, here) => t.makeFrom .notDirectory l here (Path.parts path)

def readFile (path : String) : Except FileProblem String :=
  if path.isEmpty then .error .notFound
  else
    match t.locate path (Path.parts path) with
    | .error problem => .error problem
    | .ok (_, .directory _) => .error .isDirectory
    | .ok (_, .file text) => .ok text

def writeFile (path text : String) : Except FileProblem FileTree :=
  let parts := Path.parts path
  let name := parts.getLast?.getD ""
  match t.locate path parts.dropLast with
  | .error problem => .error problem
  | .ok (_, .file _) => .error .notDirectory
  | .ok (l, here) =>
    if longestName < name.utf8ByteSize then .error .nameTooLong
    else
      match t.entryFrom? l here name with
      | some (.directory _) => .error .isDirectory
      | _ => .ok (t.insert (l.step name) (.file text))

def listing : List (String × String) :=
  match t.find? t.working with
  | none => []
  | some e =>
    (e.files.map fun (names, text) => ("/".intercalate names, text)).mergeSort fun a b => a.1 ≤ b.1

end FileTree

structure FileWrite where
  path : String
  text : String
  deriving DecidableEq, Repr

structure WriteFailure where
  path : String
  problem : FileProblem
  deriving DecidableEq, Repr

namespace FileTree

def write (t : FileTree) (w : FileWrite) : FileTree × Option WriteFailure :=
  let directory := Path.directory w.path
  match t.makeDirectories directory with
  | (t, some problem) => (t, some ⟨directory, problem⟩)
  | (t, none) =>
    match t.writeFile w.path w.text with
    | .error problem => (t, some ⟨w.path, problem⟩)
    | .ok t => (t, none)

def writeAll (t : FileTree) : List FileWrite → FileTree × Option WriteFailure
  | [] => (t, none)
  | w :: ws =>
    match t.write w with
    | (t, some failure) => (t, some failure)
    | (t, none) => writeAll t ws

end FileTree

end WireSchema
