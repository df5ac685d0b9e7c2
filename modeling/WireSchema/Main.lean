import WireSchema.CommandLine

namespace WireSchema.CommandLine

/-- The problem with the number `code`, which some functions give as a negative one. -/
def problemOfCode (code : UInt32) (e : IO.Error) : FileProblem :=
  if code == 20 || code == -20 then .notDirectory
  else if code == 21 || code == -21 then .isDirectory
  else if code == 36 || code == -36 then .nameTooLong
  else .other e.toString

def problem (e : IO.Error) : FileProblem :=
  match e with
  | .noFileOrDirectory .. => .notFound
  | .alreadyExists .. => .fileExists
  | .inappropriateType _ code _ | .noSuchThing _ code _ | .invalidArgument _ code _
  | .resourceExhausted _ code _ => problemOfCode code e
  | _ => .other e.toString

def readSource (path : String) : IO (Except FileProblem String) := do
  match ← (IO.FS.readBinFile path).toBaseIO with
  | .error e => return .error (problem e)
  | .ok bytes =>
    match String.fromUTF8? bytes with
    | some source => return .ok source
    | none => return .error .invalidText

def isDirectory (path : String) : IO Bool := do
  try
    let place ← IO.FS.realPath path
    place.isDir
  catch _ => return false

def makeOne (path : String) : IO Unit := do
  try IO.FS.createDir path
  catch e => unless ← isDirectory path do throw e

partial def makeDirectory (path : String) : IO Unit := do
  unless path.isEmpty do
    try makeOne path
    catch e =>
      if problem e = .notFound then
        makeDirectory (Path.directory path)
        makeOne path
      else throw e

def perform : List FileWrite → IO (Option WriteFailure)
  | [] => return none
  | w :: ws => do
    let directory := Path.directory w.path
    match ← (makeDirectory directory).toBaseIO with
    | .error e => return some ⟨directory, problem e⟩
    | .ok () =>
      match ← (IO.FS.writeFile w.path w.text).toBaseIO with
      | .error e => return some ⟨w.path, problem e⟩
      | .ok () => perform ws

def execute (arguments : List String) : IO Exit := do
  match Options.parse? {} arguments with
  | none | some { schema := none, .. } => return usage
  | some o@{ schema := some path, .. } =>
    match ← readSource path with
    | .error e => return unreadable path e
    | .ok source =>
      match Job.ofSource source o.targets with
      | .error reason => return rejected path reason
      | .ok job =>
        match ← perform job.writes with
        | some failure => return unwritable failure
        | none => return finished path job.report

end WireSchema.CommandLine

def main (arguments : List String) : IO UInt32 := do
  let exit ← WireSchema.CommandLine.execute arguments
  (← IO.getStdout).putStr exit.output
  (← IO.getStderr).putStr exit.errors
  return exit.status.toUInt32
