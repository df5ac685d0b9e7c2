import WireSchema.Emit.Java.Unit
import WireSchema.Emit.Rust.Module
import WireSchema.Output.Path

namespace WireSchema

structure Backend where
  /-- the name, which is also that of the backend's settings -/
  name : String
  /-- the path of the file for a class -/
  path : String → Settings → String
  render : Plan → Settings → Except PlanError String
  /-- a file that lists the classes that were generated, as its path and its text -/
  index? : List String → Settings → Option (String × String)

inductive Language where
  | rust
  | java
  deriving DecidableEq, Repr

namespace Backend

def indent : String := "    "

def rust : Backend where
  name := "rust"
  path className _ := Rust.moduleName className ++ ".rs"
  render p settings := (Rust.classModule p settings).map (Code.render indent)
  index? classes settings := some ("mod.rs", Code.render indent (Rust.index classes settings))

def java : Backend where
  name := "java"
  path className settings :=
    let packages := Text.wordsBy (· == '.') (Java.packageName settings)
    Path.join (packages.foldl Path.join "") (Java.className className ++ ".java")
  render p settings := (Java.classUnit p settings).map (Code.render indent)
  index? _ _ := none

end Backend

namespace Language

def all : List Language := [rust, java]

def backend : Language → Backend
  | rust => .rust
  | java => .java

def ofName? (s : String) : Option Language :=
  all.find? (·.backend.name == Text.lowerAscii s)

end Language

end WireSchema
