import Mathlib.Data.List.Nodup
import WireSchema.Output.Generate
import WireSchema.Proofs.Outcome

namespace WireSchema

open Outcome

namespace Backend

variable {b : Backend} {settings : Settings} {className : String} {plan : Except PlanError Plan}

theorem unit_eq_ok {u : GeneratedUnit} : b.unit settings className plan = .ok u ↔
    u.className = some className ∧ u.path = b.path className settings ∧
      ∃ p, plan = .ok p ∧ b.render p settings = .ok u.text := by
  obtain ⟨name, path, text⟩ := u
  cases plan with
  | error e => simp [unit, Except.bind]
  | ok p =>
      cases hr : b.render p settings with
      | error e => simp [unit, Except.bind, hr]
      | ok t => simp [unit, Except.bind, hr, eq_comm]

theorem unit_eq_error {f : ClassFailure} : b.unit settings className plan = .error f ↔
    f.backend = b.name ∧ f.className = className ∧
      (plan = .error f.error ∨ ∃ p, plan = .ok p ∧ b.render p settings = .error f.error) := by
  obtain ⟨backend, name, error⟩ := f
  cases plan with
  | error e => simp [unit, Except.bind, eq_comm]
  | ok p =>
      cases hr : b.render p settings with
      | error e => simp [unit, Except.bind, hr, eq_comm]
      | ok t => simp [unit, Except.bind, hr]

end Backend

theorem ClassFailure.ofResult?_eq_some {x : Except ClassFailure GeneratedUnit} {f : ClassFailure} :
    ofResult? x = some f ↔ x = .error f := by
  cases x <;> simp [ofResult?]

namespace Schema

variable (s : Schema) (b : Backend)

def result (d : ClassDef) : Except ClassFailure GeneratedUnit :=
  b.unit (s.settings b.name) d.name (Plan.build s.registry d)

theorem results_all : s.results (Plan.all s.registry) b = s.registry.classes.map (s.result b) := by
  simp only [results, Plan.all, List.map_map]
  rfl

theorem outputs_flatMap {count : Nat} {f : Backend → List (Except ClassFailure GeneratedUnit)}
    (hf : ∀ b, (f b).length = count) (backends : List Backend) :
    s.outputs count backends (backends.flatMap f) =
      backends.map fun b => b.output (s.settings b.name) (f b) := by
  induction backends with
  | nil => rfl
  | cons b backends ih =>
      rw [List.flatMap_cons, outputs, List.take_left' (hf b), List.drop_left' (hf b), ih, List.map_cons]

theorem generate_eq (backends : List Backend) : s.generate backends = backends.map fun b =>
    b.output (s.settings b.name) (s.registry.classes.map (s.result b)) := by
  have hlength (b : Backend) :
      (s.results (Plan.all s.registry) b).length = (Plan.all s.registry).length :=
    List.length_map ..
  rw [generate, s.outputs_flatMap hlength]
  simp only [results_all]

theorem exists_output : ∃ out, s.generate [b] = [out] :=
  ⟨_, s.generate_eq [b]⟩

def classUnits (ds : List ClassDef) : List GeneratedUnit :=
  ds.filterMap fun d => (s.result b d).toOption

def classFailures (ds : List ClassDef) : List ClassFailure :=
  ds.filterMap fun d => ClassFailure.ofResult? (s.result b d)

theorem output_eq (settings : Settings) (ds : List ClassDef) :
    b.output settings (ds.map (s.result b)) = ⟨b.name, s.classUnits b ds ++
      b.indexUnit settings ((s.classUnits b ds).filterMap GeneratedUnit.className),
      s.classFailures b ds⟩ := by
  rw [Backend.output, List.filterMap_map, List.filterMap_map]
  rfl

variable {s b} {ds : List ClassDef}

theorem mem_classUnits {u : GeneratedUnit} :
    u ∈ s.classUnits b ds ↔ ∃ d ∈ ds, s.result b d = .ok u := by
  simp only [classUnits, List.mem_filterMap, toOption_eq_some]

theorem mem_classFailures {f : ClassFailure} :
    f ∈ s.classFailures b ds ↔ ∃ d ∈ ds, s.result b d = .error f := by
  simp only [classFailures, List.mem_filterMap, ClassFailure.ofResult?_eq_some]

theorem mem_classUnits_of_name {d : ClassDef} (hd : d ∈ s.registry.classes) {u : GeneratedUnit}
    (hu : u.className = some d.name) :
    u ∈ s.classUnits b s.registry.classes ↔ s.result b d = .ok u := by
  rw [mem_classUnits]
  refine ⟨?_, fun h => ⟨d, hd, h⟩⟩
  rintro ⟨d', hd', h⟩
  have hname : d'.name = d.name := Option.some.inj ((Backend.unit_eq_ok.1 h).1.symm.trans hu)
  rwa [← List.inj_on_of_nodup_map s.registry.nodup hd' hd hname]

theorem mem_classFailures_of_name {d : ClassDef} (hd : d ∈ s.registry.classes) {f : ClassFailure}
    (hf : f.className = d.name) :
    f ∈ s.classFailures b s.registry.classes ↔ s.result b d = .error f := by
  rw [mem_classFailures]
  refine ⟨?_, fun h => ⟨d, hd, h⟩⟩
  rintro ⟨d', hd', h⟩
  have hname : d'.name = d.name := (Backend.unit_eq_error.1 h).2.1.symm.trans hf
  rwa [← List.inj_on_of_nodup_map s.registry.nodup hd' hd hname]

theorem classUnits_cons (d : ClassDef) (ds : List ClassDef) :
    s.classUnits b (d :: ds) = (s.result b d).toOption.toList ++ s.classUnits b ds := by
  rw [classUnits, List.filterMap_eq_flatMap_toList, List.flatMap_cons,
    ← List.filterMap_eq_flatMap_toList, classUnits]

theorem classFailures_cons (d : ClassDef) (ds : List ClassDef) : s.classFailures b (d :: ds) =
    (ClassFailure.ofResult? (s.result b d)).toList ++ s.classFailures b ds := by
  rw [classFailures, List.filterMap_eq_flatMap_toList, List.flatMap_cons,
    ← List.filterMap_eq_flatMap_toList, classFailures]

theorem names_classUnits : (s.classUnits b ds).filterMap GeneratedUnit.className =
    (ds.filter fun d => (s.result b d).isOk).map ClassDef.name := by
  induction ds with
  | nil => rfl
  | cons d ds ih =>
      rw [classUnits_cons, List.filterMap_append, ih, List.filter_cons]
      cases h : s.result b d with
      | error f => rfl
      | ok u =>
          have hname : u.className = some d.name := (Backend.unit_eq_ok.1 h).1
          simp [Except.toOption, Except.isOk, Except.toBool, hname]

theorem names_classFailures : (s.classFailures b ds).map ClassFailure.className =
    (ds.filter fun d => !(s.result b d).isOk).map ClassDef.name := by
  induction ds with
  | nil => rfl
  | cons d ds ih =>
      rw [classFailures_cons, List.map_append, ih, List.filter_cons]
      cases h : s.result b d with
      | ok u => rfl
      | error f =>
          have hname : f.className = d.name := (Backend.unit_eq_error.1 h).2.1
          simp [ClassFailure.ofResult?, Except.isOk, Except.toBool, hname]

theorem count_add_count (hnodup : (ds.map ClassDef.name).Nodup) {d : ClassDef} (hd : d ∈ ds) :
    ((s.classUnits b ds).filterMap GeneratedUnit.className).count d.name +
      ((s.classFailures b ds).map ClassFailure.className).count d.name = 1 := by
  rw [names_classUnits, names_classFailures, ← List.count_append, ← List.map_append]
  rw [((List.filter_append_perm (fun d => (s.result b d).isOk) ds).map ClassDef.name).count_eq]
  exact List.count_eq_one_of_mem hnodup (List.mem_map_of_mem hd)

end Schema

namespace Code

theorem renderLine_zero (unit text : String) : renderLine unit 0 text = text ++ "\n" := by
  rw [renderLine]
  split
  next h => rw [String.isEmpty_iff.1 h]; rfl
  next => rfl

theorem render_lines (unit : String) (texts : List String) :
    render unit (texts.map .line) = String.join (texts.map (· ++ "\n")) := by
  rw [render]
  congr 1
  induction texts with
  | nil => rfl
  | cons text texts ih => simp [renderLines, renderLine_zero, ih]

end Code

namespace Rust

def indexLines (classes : List String) (settings : Settings) : List String :=
  ["//! " ++ settings.getD "doc" "Generated protocol data units.",
    "// Generated by pdugen. Do not edit.", ""] ++
  classes.map (fun c => "pub mod " ++ moduleName c ++ ";") ++ [""] ++
  classes.map fun c => "pub use " ++ moduleName c ++ "::" ++ typeName c ++ ";"

theorem index_eq (classes : List String) (settings : Settings) :
    index classes settings = (indexLines classes settings).map .line := by
  have hlines (f : String → String) :
      classes.flatMap (fun c => Code.line (f c)) = (classes.map f).map .line := by
    simp [Code.line, ← List.map_eq_flatMap]
  rw [index, hlines fun c => "pub mod " ++ moduleName c ++ ";",
    hlines fun c => "pub use " ++ moduleName c ++ "::" ++ typeName c ++ ";"]
  simp [indexLines, notice, Code.line, Code.blank]

end Rust

theorem Backend.className_of_mem_indexUnit {b : Backend} {classes : List String}
    {settings : Settings} {u : GeneratedUnit} (h : u ∈ b.indexUnit settings classes) :
    u.className = none := by
  rw [indexUnit, Option.mem_toList, Option.map_eq_some_iff] at h
  obtain ⟨x, -, rfl⟩ := h
  rfl

namespace BackendOutput

def classNames (out : BackendOutput) : List String :=
  out.units.filterMap GeneratedUnit.className

def failedNames (out : BackendOutput) : List String :=
  out.failures.map ClassFailure.className

/-- What a backend has to give for a schema: each class once, as a file with the text that its plan
is rendered to or as a failure with the reason that there is none, and an index of the files. -/
structure Complete (s : Schema) (b : Backend) (out : BackendOutput) : Prop where
  backend : out.backend = b.name
  once : ∀ d ∈ s.registry.classes,
    out.classNames.count d.name + out.failedNames.count d.name = 1
  units_order : out.classNames.Sublist s.registry.names
  failures_order : out.failedNames.Sublist s.registry.names
  mem_units : ∀ d ∈ s.registry.classes, ∀ path text,
    ⟨some d.name, path, text⟩ ∈ out.units ↔ path = b.path d.name (s.settings b.name) ∧
      ∃ p, Plan.build s.registry d = .ok p ∧ b.render p (s.settings b.name) = .ok text
  mem_failures : ∀ d ∈ s.registry.classes, ∀ e, ⟨b.name, d.name, e⟩ ∈ out.failures ↔
    Plan.build s.registry d = .error e ∨
      ∃ p, Plan.build s.registry d = .ok p ∧ b.render p (s.settings b.name) = .error e
  failure_backend : ∀ f ∈ out.failures, f.backend = b.name
  index : ∃ units, (∀ u ∈ units, u.className.isSome) ∧ out.units = units ++
    (b.index? out.classNames (s.settings b.name)).toList.map fun x => ⟨none, x.1, x.2⟩

end BackendOutput

namespace Schema

variable (s : Schema) (b : Backend)

theorem complete_output :
    (b.output (s.settings b.name) (s.registry.classes.map (s.result b))).Complete s b := by
  rw [output_eq]
  set names := (s.classUnits b s.registry.classes).filterMap GeneratedUnit.className with hnames
  have hindex {u : GeneratedUnit} (hu : u ∈ b.indexUnit (s.settings b.name) names) :
      u.className = none := Backend.className_of_mem_indexUnit hu
  have hclassNames : BackendOutput.classNames ⟨b.name, s.classUnits b s.registry.classes ++
      b.indexUnit (s.settings b.name) names, s.classFailures b s.registry.classes⟩ = names := by
    rw [BackendOutput.classNames, List.filterMap_append,
      List.filterMap_eq_nil_iff.2 fun u hu => hindex hu, List.append_nil]
  refine ⟨rfl, fun d hd => ?_, ?_, ?_, fun d hd path text => ?_, fun d hd e => ?_, fun f hf => ?_,
    s.classUnits b s.registry.classes, fun u hu => ?_, ?_⟩
  · rw [hclassNames]
    exact count_add_count s.registry.nodup hd
  · rw [hclassNames, hnames, names_classUnits]
    exact List.filter_sublist.map _
  · rw [BackendOutput.failedNames, names_classFailures]
    exact List.filter_sublist.map _
  · have hmem : (⟨some d.name, path, text⟩ : GeneratedUnit) ∈ s.classUnits b s.registry.classes ++
        b.indexUnit (s.settings b.name) names ↔ s.result b d = .ok ⟨some d.name, path, text⟩ := by
      rw [List.mem_append, mem_classUnits_of_name hd rfl, or_iff_left]
      exact fun hu => Option.some_ne_none _ (hindex hu)
    exact hmem.trans (Backend.unit_eq_ok.trans (and_iff_right rfl))
  · refine (mem_classFailures_of_name hd rfl).trans (Backend.unit_eq_error.trans ?_)
    exact (and_iff_right rfl).trans (and_iff_right rfl)
  · obtain ⟨d, -, hd⟩ := mem_classFailures.1 hf
    exact (Backend.unit_eq_error.1 hd).1
  · obtain ⟨d, -, hd⟩ := mem_classUnits.1 hu
    rw [(Backend.unit_eq_ok.1 hd).1]
    rfl
  · rw [hclassNames, Backend.indexUnit, Option.toList_map]

/-- There is one output for each backend, in order and as if it were the only one, and in it each
class appears once. An index, for the languages that have one, is given line by line. -/
theorem generate_complete (backends : List Backend) :
    List.Forall₂ (fun b out => s.generate [b] = [out] ∧ out.Complete s b) backends
      (s.generate backends) ∧
    ∀ (b : Language) classes settings, b.backend.index? classes settings =
      match b with
      | .rust => some ("mod.rs", String.join ((Rust.indexLines classes settings).map (· ++ "\n")))
      | .java => none := by
  constructor
  · rw [generate_eq, List.forall₂_map_right_iff]
    refine List.forall₂_same.2 fun b _ => ⟨?_, s.complete_output b⟩
    rw [generate_eq]
    rfl
  · intro b classes settings
    cases b with
    | rust => simp only [Language.backend, Backend.rust, Rust.index_eq, Code.render_lines]
    | java => rfl

end Schema

end WireSchema
