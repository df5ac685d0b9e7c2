import WireSchema.Emit.Backend
import WireSchema.Plan.Build

namespace WireSchema

structure GeneratedUnit where
  /-- none for the index of a backend -/
  className : Option String
  /-- relative to the directory of the target, and the same as another if the components are -/
  path : String
  text : String
  deriving Repr

structure ClassFailure where
  backend : String
  className : String
  error : PlanError
  deriving DecidableEq, Repr

def ClassFailure.ofResult? : Except ClassFailure GeneratedUnit → Option ClassFailure
  | .ok _ => none
  | .error f => some f

structure BackendOutput where
  backend : String
  units : List GeneratedUnit
  failures : List ClassFailure
  deriving Repr

namespace Backend

variable (b : Backend) (settings : Settings)

def unit (className : String) (plan : Except PlanError Plan) : Except ClassFailure GeneratedUnit :=
  match plan.bind fun p => b.render p settings with
  | .ok text => .ok ⟨some className, b.path className settings, text⟩
  | .error e => .error ⟨b.name, className, e⟩

def indexUnit (classes : List String) : List GeneratedUnit :=
  ((b.index? classes settings).map fun (path, text) => ⟨none, path, text⟩).toList

/-- The files and failures among the results for the classes, in the order of the classes, and the
index of those that have a file. -/
def output (results : List (Except ClassFailure GeneratedUnit)) : BackendOutput :=
  let units := results.filterMap Except.toOption
  ⟨b.name, units ++ b.indexUnit settings (units.filterMap GeneratedUnit.className),
    results.filterMap ClassFailure.ofResult?⟩

end Backend

namespace Schema

variable (s : Schema)

def results (plans : List (String × Except PlanError Plan)) (b : Backend) :
    List (Except ClassFailure GeneratedUnit) :=
  plans.map fun (className, plan) => b.unit (s.settings b.name) className plan

/-- Deals results out to the backends that they are for: each backend takes the next `count`. -/
def outputs (count : Nat) :
    List Backend → List (Except ClassFailure GeneratedUnit) → List BackendOutput
  | [], _ => []
  | b :: bs, results =>
    b.output (s.settings b.name) (results.take count) :: outputs count bs (results.drop count)

/-- Generates every class with every backend. No pair of a class and a backend depends on another,
so the results of all pairs are one list. -/
def generate (backends : List Backend) : List BackendOutput :=
  let plans := Plan.all s.registry
  s.outputs plans.length backends (backends.flatMap (s.results plans))

end Schema

end WireSchema
