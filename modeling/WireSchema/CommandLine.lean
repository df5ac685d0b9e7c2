import WireSchema.Output.Run
import WireSchema.Text.Basic

namespace WireSchema

structure Options where
  schema : Option String := none
  rustOut : Option String := none
  javaOut : Option String := none
  check : Bool := false

namespace Options

def value? (name argument : String) : Option String :=
  (Text.behind? (name ++ "=").toList argument.toList).map String.ofList

/-- Whether an argument asks for more messages: `--verbose` or `-v`, the letter any number of
times. -/
def isVerbose (argument : String) : Bool :=
  argument == "--verbose" ||
    match argument.toList with
    | '-' :: 'v' :: vs => vs.all (· == 'v')
    | _ => false

def isPath (argument : String) : Bool :=
  match argument.toList with
  | [] => false
  | ['-'] => true
  | c :: _ => c != '-'

def setSchema (o : Options) (path : String) : Option Options :=
  if o.schema.isSome || path.isEmpty then none else some { o with schema := some path }

def setRustOut (o : Options) (directory : String) : Option Options :=
  if o.rustOut.isSome || directory.isEmpty then none else some { o with rustOut := some directory }

def setJavaOut (o : Options) (directory : String) : Option Options :=
  if o.javaOut.isSome || directory.isEmpty then none else some { o with javaOut := some directory }

def setCheck (o : Options) : Option Options :=
  if o.check then none else some { o with check := true }

/-- Reads arguments. Each of them may be given once, `-v` aside, and everything behind `--` is a
path. -/
def parse? (o : Options) : List String → Option Options
  | [] => some o
  | "--" :: paths => paths.foldlM setSchema o
  | "--rust-out" :: directory :: rest =>
    if isPath directory then (o.setRustOut directory).bind (parse? · rest) else none
  | "--java-out" :: directory :: rest =>
    if isPath directory then (o.setJavaOut directory).bind (parse? · rest) else none
  | "--check" :: rest => o.setCheck.bind (parse? · rest)
  | argument :: rest =>
    if isVerbose argument then parse? o rest
    else
      match value? "--rust-out" argument, value? "--java-out" argument with
      | some directory, _ => (o.setRustOut directory).bind (parse? · rest)
      | none, some directory => (o.setJavaOut directory).bind (parse? · rest)
      | none, none =>
        if isPath argument then (o.setSchema argument).bind (parse? · rest) else none

def targets (o : Options) : List Target :=
  if o.check then []
  else (o.rustOut.map (⟨.rust, ·⟩)).toList ++ (o.javaOut.map (⟨.java, ·⟩)).toList

end Options

structure Exit where
  status : Nat
  output : String
  errors : String

namespace CommandLine

def usage : Exit :=
  ⟨2, "", "Usage: pdugen [--rust-out DIR] [--java-out DIR] [--check] [-v] SCHEMA\n"⟩

/-- A text whose lines stand behind a margin, the first of which is there already. -/
def indented (margin : Nat) (text : String) : String :=
  String.ofList (text.toList.flatMap fun c =>
    if c = '\n' then '\n' :: List.replicate margin ' ' else [c])

/-- Causes, each on lines of its own, the nearest first. They have numbers if there are several. -/
def causeLines : List String → String
  | [cause] => "    " ++ indented 4 cause ++ "\n"
  | causes =>
    String.join (causes.zipIdx.map fun (cause, n) => s!"    {n}: " ++ indented 7 cause ++ "\n")

def failed (what : String) (causes : List String) : Exit :=
  ⟨1, "", "Error: " ++ what ++ "\n\nCaused by:\n" ++ causeLines causes⟩

def unreadable (path : String) (problem : FileProblem) : Exit :=
  failed ("reading " ++ path) [problem.message]

def unwritable (failure : WriteFailure) : Exit :=
  let reason := failure.problem.message
  failed "generation failed" [failure.path ++ ": " ++ reason, reason]

def diagnosticLines (path : String) (ds : List Diagnostic) : String :=
  String.join (ds.map fun d => path ++ ": " ++ d.text ++ "\n")

def failureLine (path : String) (f : ClassFailure) : String :=
  path ++ ": error: " ++ f.error.message ++ " [" ++ f.backend ++ "]\n"

def rejected (path : String) : Rejection → Exit
  | .unreadable e => ⟨1, path ++ ": error: " ++ e.message ++ "\n", ""⟩
  | .invalid ds =>
    let errors := (ds.filter Diagnostic.isError).length
    ⟨1, diagnosticLines path ds, s!"pdugen: {errors} error(s), nothing written\n"⟩

def finished (path : String) (r : Report) : Exit :=
  let written := r.written.length
  let failed := r.failures.length
  { status := if r.isSuccess then 0 else 1
    output := diagnosticLines path r.warnings ++ String.join (r.failures.map (failureLine path))
    errors := (if written = 0 then "" else s!"pdugen: wrote {written} file(s)\n") ++
      if r.isSuccess then "" else s!"pdugen: {failed} class(es) not generated\n" }

def run (arguments : List String) (t : FileTree) : FileTree × Exit :=
  match Options.parse? {} arguments with
  | none | some { schema := none, .. } => (t, usage)
  | some o@{ schema := some path, .. } =>
    match t.readFile path with
    | .error problem => (t, unreadable path problem)
    | .ok source =>
      match WireSchema.run source o.targets t with
      | (t, .error (.rejected reason)) => (t, rejected path reason)
      | (t, .error (.io failure)) => (t, unwritable failure)
      | (t, .ok report) => (t, finished path report)

end CommandLine

end WireSchema
