import WireSchema.Proofs.Output.Generation
import WireSchema.Proofs.Wire.Reordering

namespace WireSchema

namespace Registry

variable {r r' : Registry}

theorem agree_of_perm (h : r.classes.Perm r'.classes) : ClassDef.Agree r.classes r'.classes := by
  intro name
  change r.find? name = r'.find? name
  ext c
  rw [find?_eq_some, find?_eq_some, h.mem_iff]

theorem filter_flatMap {β : Type} {ds : List ClassDef} {g : ClassDef → List β} {p : β → Bool}
    (hnodup : (ds.map ClassDef.name).Nodup) {d : ClassDef} (hd : d ∈ ds)
    (hp : ∀ d', ∀ x ∈ g d', p x = (d'.name == d.name)) : (ds.flatMap g).filter p = g d := by
  induction ds with
  | nil => cases hd
  | cons e ds ih =>
      obtain ⟨he, hnodup⟩ := List.nodup_cons.1 hnodup
      rw [List.flatMap_cons, List.filter_append]
      rcases List.mem_cons.1 hd with rfl | hd
      · have hrest : (ds.flatMap g).filter p = [] := by
          rw [List.filter_eq_nil_iff]
          intro x hx
          obtain ⟨d', hd', hx⟩ := List.mem_flatMap.1 hx
          rw [hp d' x hx, beq_iff_eq]
          exact fun hname => he (hname ▸ List.mem_map_of_mem hd')
        rw [hrest, List.append_nil, List.filter_eq_self]
        intro x hx
        rw [hp d x hx, beq_self_eq_true]
      · have hfirst : (g e).filter p = [] := by
          rw [List.filter_eq_nil_iff]
          intro x hx
          rw [hp e x hx, beq_iff_eq]
          exact fun hname => he (hname ▸ List.mem_map_of_mem hd)
        rw [hfirst, List.nil_append, ih hnodup hd]

def findingsFor (r : Registry) (name : String) : List Diagnostic :=
  r.validate.filter (·.className == name)

theorem className_of_mem_validateClass {d : ClassDef} {x : Diagnostic} (h : x ∈ r.validateClass d) :
    x.className = d.name := by
  simp only [validateClass, List.mem_append, List.mem_map, List.mem_flatMap] at h
  rcases h with ((⟨_, -, rfl⟩ | ⟨_, -, _, -, rfl⟩) | ⟨_, -, _, -, rfl⟩) | ⟨_, -, _, -, rfl⟩ <;> rfl

theorem findingsFor_eq {d : ClassDef} (hd : d ∈ r.classes) :
    r.findingsFor d.name = r.validateClass d := by
  apply filter_flatMap r.nodup hd
  intro d' x hx
  rw [className_of_mem_validateClass hx]

theorem validate_eq : r.validate = r.classes.flatMap fun d => r.findingsFor d.name := by
  rw [validate]
  apply List.flatMap_congr
  intro d hd
  rw [findingsFor_eq hd]

end Registry

namespace BackendOutput

def unitsFor (out : BackendOutput) (name : String) : List GeneratedUnit :=
  out.units.filter (·.className == some name)

def failuresFor (out : BackendOutput) (name : String) : List ClassFailure :=
  out.failures.filter (·.className == name)

end BackendOutput

namespace Schema

variable {s s' : Schema} {b : Backend}

theorem unitsFor_output {d : ClassDef} (hd : d ∈ s.registry.classes) (settings : Settings) :
    (b.output settings (s.registry.classes.map (s.result b))).unitsFor d.name =
      (s.result b d).toOption.toList := by
  have hindex (classes : List String) :
      (b.indexUnit settings classes).filter (·.className == some d.name) = [] := by
    rw [List.filter_eq_nil_iff]
    intro u hu
    simp [Backend.className_of_mem_indexUnit hu]
  rw [output_eq, BackendOutput.unitsFor, List.filter_append, hindex, List.append_nil, classUnits,
    List.filterMap_eq_flatMap_toList]
  apply Registry.filter_flatMap s.registry.nodup hd
  intro d' u hu
  have hresult : s.result b d' = .ok u := Outcome.toOption_eq_some.1 (Option.mem_toList.1 hu)
  rw [(Backend.unit_eq_ok.1 hresult).1]
  rfl

theorem failuresFor_output {d : ClassDef} (hd : d ∈ s.registry.classes) (settings : Settings) :
    (b.output settings (s.registry.classes.map (s.result b))).failuresFor d.name =
      (ClassFailure.ofResult? (s.result b d)).toList := by
  rw [output_eq]
  change (s.classFailures b s.registry.classes).filter (·.className == d.name) = _
  rw [classFailures, List.filterMap_eq_flatMap_toList]
  apply Registry.filter_flatMap s.registry.nodup hd
  intro d' f hf
  have hresult : s.result b d' = .error f :=
    ClassFailure.ofResult?_eq_some.1 (Option.mem_toList.1 hf)
  rw [(Backend.unit_eq_error.1 hresult).2.1]

/-- The order in which classes are declared does not matter for what is planned, found, done with
objects and generated for each of them. What is found for all classes is what is found for each, in
the order of the classes. -/
theorem reordering_irrelevant (h : s.registry.classes.Perm s'.registry.classes)
    (hbackends : s.backends = s'.backends) :
    (∀ d, Plan.build s.registry d = Plan.build s'.registry d) ∧
    (∀ d ∈ s.registry.classes,
      s.registry.findingsFor d.name = s'.registry.findingsFor d.name) ∧
    (s.registry.validate = s.registry.classes.flatMap fun d => s.registry.findingsFor d.name) ∧
    (s'.registry.validate = s'.registry.classes.flatMap fun d => s'.registry.findingsFor d.name) ∧
    (∀ e c c', c = Codec.ofRegistry s.registry e → c' = Codec.ofRegistry s'.registry e →
      (∀ name, c.instantiate name = c'.instantiate name) ∧
      (∀ o, c.encode o = c'.encode o) ∧
      (∀ o bs, c.decodeInto o bs = c'.decodeInto o bs) ∧
      (∀ name bs, c.decode name bs = c'.decode name bs) ∧
      (∀ o, c.size o = c'.size o) ∧
      ∀ a b, c.differences a b = c'.differences a b) ∧
    ∀ backends, List.Forall₂ (fun out out' => out.backend = out'.backend ∧
      ∀ d ∈ s.registry.classes, out.unitsFor d.name = out'.unitsFor d.name ∧
        out.failuresFor d.name = out'.failuresFor d.name)
      (s.generate backends) (s'.generate backends) := by
  have hagree := Registry.agree_of_perm h
  refine ⟨Plan.build_congr hagree, fun d hd => ?_, Registry.validate_eq, Registry.validate_eq, ?_,
    fun backends => ?_⟩
  · rw [Registry.findingsFor_eq hd, Registry.findingsFor_eq (h.mem_iff.1 hd),
      Registry.validateClass_congr hagree]
  · rintro e c c' rfl rfl
    have hcodec := Codec.agree_ofRegistry hagree h.length_eq e
    exact ⟨congrFun hcodec.instantiate, hcodec.encode,
      fun o bs => congrFun (congrFun hcodec.decodeInto o) bs,
      fun name bs => congrFun (congrFun hcodec.decode name) bs, hcodec.size, hcodec.differencesAt ""⟩
  · rw [generate_eq, generate_eq, List.forall₂_map_left_iff, List.forall₂_map_right_iff]
    refine List.forall₂_same.2 fun b _ => ⟨rfl, fun d hd => ?_⟩
    have hresult : s.result b d = s'.result b d := by
      rw [result, result, Plan.build_congr hagree, settings, settings, hbackends]
    have hd' := h.mem_iff.1 hd
    rw [unitsFor_output hd, unitsFor_output hd', failuresFor_output hd, failuresFor_output hd',
      hresult]
    exact ⟨rfl, rfl⟩

def reversedSample : Schema :=
  { registry := ⟨[Registry.sampleDerived, Registry.sampleBase], by decide⟩ }

theorem reordering_irrelevant_sample :
    Plan.build reversedSample.registry Registry.sampleDerived = .ok Plan.sampleDerived ∧
    (Codec.ofRegistry reversedSample.registry .big).encode (.sampleDerived 5 7) =
      .ok [1, 0, 0, 3] := by
  have hperm : ({ registry := Registry.sample } : Schema).registry.classes.Perm
      reversedSample.registry.classes := .swap ..
  obtain ⟨hbuild, -, -, -, hcodec, -⟩ := reordering_irrelevant hperm rfl
  exact ⟨(hbuild _).symm.trans Plan.build_sampleDerived,
    ((hcodec .big _ _ rfl rfl).2.1 _).symm.trans Codec.encode_sampleDerived⟩

end Schema

end WireSchema
