import WireSchema.Output.FileTree
import WireSchema.Output.Generate
import WireSchema.Schema.Validation

namespace WireSchema

structure Target where
  backend : Backend
  directory : String

structure Job where
  warnings : List Diagnostic
  writes : List FileWrite
  failures : List ClassFailure

structure Report where
  warnings : List Diagnostic
  written : List String
  failures : List ClassFailure

def Report.isSuccess (r : Report) : Bool :=
  r.failures.isEmpty

namespace Job

def targetWrites (target : Target) (output : BackendOutput) : List FileWrite :=
  output.units.map fun u => ⟨Path.join target.directory u.path, u.text⟩

def ofSource (source : String) (targets : List Target) : Except Rejection Job :=
  (Schema.check source).map fun loaded =>
    let outputs := loaded.schema.generate (targets.map Target.backend)
    ⟨loaded.warnings, (targets.zip outputs).flatMap fun (t, o) => targetWrites t o,
      outputs.flatMap BackendOutput.failures⟩

def report (job : Job) : Report :=
  ⟨job.warnings, job.writes.map FileWrite.path, job.failures⟩

end Job

inductive RunError where
  | rejected (reason : Rejection)
  | io (failure : WriteFailure)

def run (source : String) (targets : List Target) (t : FileTree) :
    FileTree × Except RunError Report :=
  match Job.ofSource source targets with
  | .error reason => (t, .error (.rejected reason))
  | .ok job =>
    match t.writeAll job.writes with
    | (t, some failure) => (t, .error (.io failure))
    | (t, none) => (t, .ok job.report)

end WireSchema
