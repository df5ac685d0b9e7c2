import WireSchema.Output.Run
import WireSchema.Proofs.Output.FileTree
import WireSchema.Proofs.Output.Generation

namespace WireSchema

namespace FileTree

variable {t t' u : FileTree} {w : FileWrite} {ws : List FileWrite} {failure : WriteFailure}

theorem write_cases {r : Option WriteFailure} (h : t.write w = (t', r)) : ∃ u, t.Extends u ∧
    (∀ m, u.text? m = t.text? m) ∧
      (r = none ∧ u.writeFile w.path w.text = .ok t' ∨
        t' = u ∧ ∃ failure, r = some failure ∧
          (failure.path = w.path ∨ failure.path = Path.directory w.path)) := by
  obtain ⟨hmade, htexts⟩ := t.makeDirectories_spec (Path.directory w.path)
  rw [write] at h
  generalize t.makeDirectories (Path.directory w.path) = made at *
  obtain ⟨u, _ | problem⟩ := made
  · cases hfile : u.writeFile w.path w.text with
    | error problem =>
      obtain ⟨rfl, rfl⟩ : u = t' ∧ some ⟨w.path, problem⟩ = r := by simpa [hfile] using h
      exact ⟨u, hmade, htexts, .inr ⟨rfl, _, rfl, .inl rfl⟩⟩
    | ok v =>
      obtain ⟨rfl, rfl⟩ : v = t' ∧ none = r := by simpa [hfile] using h
      exact ⟨u, hmade, htexts, .inl ⟨rfl, hfile⟩⟩
  · obtain ⟨rfl, rfl⟩ := Prod.mk.inj h
    exact ⟨u, hmade, htexts, .inr ⟨rfl, _, rfl, .inr rfl⟩⟩

theorem write_spec (h : t.write w = (t', none)) : t.Extends t' ∧
    ∃ l, t'.Resolves w.path l ∧ ∀ m, t'.text? m = if m = l then some w.text else t.text? m := by
  obtain ⟨u, hmade, htexts, ⟨-, hfile⟩ | ⟨-, failure, hfailure, -⟩⟩ := write_cases h
  · obtain ⟨hext, l, hl, htext⟩ := writeFile_spec hfile
    refine ⟨hmade.trans hext, l, hl, fun m => ?_⟩
    rw [htext, htexts]
  · cases hfailure

theorem write_failure_spec (h : t.write w = (t', some failure)) : t.Extends t' ∧
    (∀ m, t'.text? m = t.text? m) ∧
      (failure.path = w.path ∨ failure.path = Path.directory w.path) := by
  obtain ⟨u, hmade, htexts, ⟨hnone, -⟩ | ⟨rfl, failure', hfailure, hpath⟩⟩ := write_cases h
  · cases hnone
  · cases hfailure
    exact ⟨hmade, htexts, hpath⟩

/-- A tree has become another in which files have been written, one after the other, and nothing
else has happened to a file. -/
structure Written (t t' : FileTree) (ws : List FileWrite) : Prop where
  kept : t.Extends t'
  resolves : ∀ w ∈ ws, ∃ l, t'.Resolves w.path l
  last : ∀ before w after l, ws = before ++ w :: after → t'.Resolves w.path l →
    (∀ v ∈ after, ¬t'.Resolves v.path l) → t'.text? l = some w.text
  others : ∀ l, (∀ w ∈ ws, ¬t'.Resolves w.path l) → t'.text? l = t.text? l

theorem Written.nil (t : FileTree) : t.Written t [] where
  kept := .refl t
  resolves := by simp
  last := by simp
  others _ _ := rfl

theorem Written.cons (hw : t.write w = (u, none)) (h : u.Written t' ws) :
    t.Written t' (w :: ws) := by
  obtain ⟨hext, place, hplace, htext⟩ := write_spec hw
  have hplace' := h.kept.resolves hplace
  refine ⟨hext.trans h.kept, ?_, ?_, ?_⟩
  · rintro v (_ | ⟨_, hv⟩)
    · exact ⟨place, hplace'⟩
    · exact h.resolves v hv
  · rintro (_ | ⟨w', before⟩) v after l heq hl hafter
    · obtain ⟨rfl, rfl⟩ := List.cons.inj heq
      obtain rfl := hl.eq hplace'
      rw [h.others l hafter, htext, if_pos rfl]
    · obtain ⟨-, heq⟩ := List.cons.inj heq
      exact h.last before v after l heq hl hafter
  · intro l hl
    have hne : l ≠ place := by
      rintro rfl
      exact hl w List.mem_cons_self hplace'
    rw [h.others l fun v hv => hl v (List.mem_cons_of_mem w hv), htext, if_neg hne]

theorem Written.keep (h : t.Written u ws) (hext : u.Extends t')
    (htext : ∀ m, t'.text? m = u.text? m) : t.Written t' ws := by
  have hresolves {v : FileWrite} (hv : v ∈ ws) {l : Location} :
      t'.Resolves v.path l ↔ u.Resolves v.path l := by
    refine ⟨fun hl => ?_, hext.resolves⟩
    obtain ⟨m, hm⟩ := h.resolves v hv
    rwa [hl.eq (hext.resolves hm)]
  refine ⟨h.kept.trans hext, ?_, ?_, ?_⟩
  · intro v hv
    obtain ⟨l, hl⟩ := h.resolves v hv
    exact ⟨l, hext.resolves hl⟩
  · rintro before v after l rfl hl hafter
    rw [htext]
    refine h.last before v after l rfl ((hresolves (by simp)).1 hl) fun v' hv' => ?_
    rw [← hresolves (by simp [hv'])]
    exact hafter v' hv'
  · intro l hl
    rw [htext]
    refine h.others l fun v hv => ?_
    rw [← hresolves hv]
    exact hl v hv

theorem writeAll_cons (h : t.write w = (u, none)) (ws : List FileWrite) :
    t.writeAll (w :: ws) = u.writeAll ws := by
  rw [writeAll, h]

theorem writeAll_cons_of_failure (h : t.write w = (u, some failure)) (ws : List FileWrite) :
    t.writeAll (w :: ws) = (u, some failure) := by
  rw [writeAll, h]

theorem written_of_writeAll (h : t.writeAll ws = (t', none)) : t.Written t' ws := by
  induction ws generalizing t with
  | nil =>
    cases h
    exact .nil _
  | cons w ws ih =>
    rcases hw : t.write w with ⟨u, _ | failure⟩
    · rw [writeAll_cons hw ws] at h
      exact .cons hw (ih h)
    · rw [writeAll_cons_of_failure hw ws] at h
      cases h

theorem writeAll_eq_failure (h : t.writeAll ws = (t', some failure)) : ∃ before w after u,
    ws = before ++ w :: after ∧ t.writeAll before = (u, none) ∧
      u.write w = (t', some failure) := by
  induction ws generalizing t with
  | nil => cases h
  | cons w ws ih =>
    rcases hw : t.write w with ⟨u, _ | problem⟩
    · rw [writeAll_cons hw ws] at h
      obtain ⟨before, v, after, u', rfl, hbefore, hv⟩ := ih h
      refine ⟨w :: before, v, after, u', rfl, ?_, hv⟩
      rw [writeAll_cons hw before, hbefore]
    · rw [writeAll_cons_of_failure hw ws] at h
      cases h
      exact ⟨[], w, ws, t, rfl, rfl, hw⟩

end FileTree

/-- The files that a schema gives, target by target. Those of a target are what is generated for its
backend, each below the directory of the target. -/
def Schema.writes (s : Schema) (targets : List Target) : List FileWrite :=
  targets.flatMap fun target => (s.generate [target.backend]).flatMap fun out =>
    out.units.map fun u => ⟨Path.join target.directory u.path, u.text⟩

def Schema.failures (s : Schema) (targets : List Target) : List ClassFailure :=
  targets.flatMap fun target => (s.generate [target.backend]).flatMap BackendOutput.failures

theorem Job.ofSource_eq (source : String) (targets : List Target) :
    Job.ofSource source targets = (Schema.check source).map fun loaded =>
      ⟨loaded.warnings, loaded.schema.writes targets, loaded.schema.failures targets⟩ := by
  rw [Job.ofSource]
  congr 1
  funext loaded
  simp only [Schema.generate_eq, Schema.writes, Schema.failures, List.map_map, List.zip_eq_zipWith,
    List.zipWith_map_right, List.zipWith_self, List.flatMap_map, List.map_cons, List.map_nil,
    List.flatMap_singleton]
  rfl

section Run

variable {source : String} {targets : List Target} {t t' : FileTree} {loaded : Loaded}

theorem run_of_rejected {reason : Rejection} (h : Schema.check source = .error reason) :
    run source targets t = (t, .error (.rejected reason)) := by
  rw [run, Job.ofSource_eq, h]
  rfl

theorem run_of_written (h : Schema.check source = .ok loaded)
    (hw : t.writeAll (loaded.schema.writes targets) = (t', none)) :
    run source targets t = (t', .ok ⟨loaded.warnings,
      (loaded.schema.writes targets).map FileWrite.path, loaded.schema.failures targets⟩) := by
  rw [run, Job.ofSource_eq, h]
  simp only [Except.map, hw]
  rfl

theorem run_of_failure {failure : WriteFailure} (h : Schema.check source = .ok loaded)
    (hw : t.writeAll (loaded.schema.writes targets) = (t', some failure)) :
    run source targets t = (t', .error (.io failure)) := by
  rw [run, Job.ofSource_eq, h]
  simp only [Except.map, hw]

theorem run_fst (h : Schema.check source = .ok loaded) :
    (run source targets t).1 = (t.writeAll (loaded.schema.writes targets)).1 := by
  rcases hwritten : t.writeAll (loaded.schema.writes targets) with ⟨t', _ | failure⟩
  · rw [run_of_written h hwritten]
  · rw [run_of_failure h hwritten]

theorem Schema.check_of_error {diagnostics : List Diagnostic} (h : Schema.read source = .ok loaded)
    (hd : diagnostics = loaded.warnings ++ loaded.schema.registry.validate)
    (herror : ∃ d ∈ diagnostics, d.isError) :
    Schema.check source = .error (.invalid diagnostics) := by
  subst hd
  rw [Schema.check, h]
  exact if_pos (List.any_eq_true.2 herror)

theorem Schema.check_of_not_error {diagnostics : List Diagnostic}
    (h : Schema.read source = .ok loaded)
    (hd : diagnostics = loaded.warnings ++ loaded.schema.registry.validate)
    (hnone : ∀ d ∈ diagnostics, ¬d.isError) :
    Schema.check source = .ok { loaded with warnings := diagnostics } := by
  subst hd
  rw [Schema.check, h]
  refine if_neg fun h => ?_
  obtain ⟨d, hd, herror⟩ := List.any_eq_true.1 h
  exact hnone d hd herror

/-- A schema that cannot be read, or in which an error is found, is rejected for that reason, and
the tree stays as it is. For any other schema the files of all targets are written, and the run
reports their paths in order; or one of them fails, and exactly the files before it are written. -/
theorem run_effect (source : String) (targets : List Target) (t : FileTree) :
    (∀ e, Schema.read source = .error e →
      run source targets t = (t, .error (.rejected (.unreadable e)))) ∧
    ∀ loaded diagnostics, Schema.read source = .ok loaded →
      diagnostics = loaded.warnings ++ loaded.schema.registry.validate →
      ((∃ d ∈ diagnostics, d.isError) →
        run source targets t = (t, .error (.rejected (.invalid diagnostics)))) ∧
      ((∀ d ∈ diagnostics, ¬d.isError) → ∃ t' writes,
        writes = loaded.schema.writes targets ∧
        ((run source targets t = (t', .ok ⟨diagnostics, writes.map FileWrite.path,
            loaded.schema.failures targets⟩) ∧ t.Written t' writes) ∨
          ∃ failure before w after u, run source targets t = (t', .error (.io failure)) ∧
            writes = before ++ w :: after ∧
            (failure.path = w.path ∨ failure.path = Path.directory w.path) ∧
            t.writeAll before = (u, none) ∧ u.write w = (t', some failure) ∧
            t.Written t' before)) := by
  refine ⟨fun e h => ?_, fun loaded diagnostics h hd => ⟨fun herror => ?_, fun hnone => ?_⟩⟩
  · apply run_of_rejected
    rw [Schema.check, h]
  · exact run_of_rejected (Schema.check_of_error h hd herror)
  · have hcheck := Schema.check_of_not_error h hd hnone
    rcases hwritten : t.writeAll (loaded.schema.writes targets) with ⟨t', _ | failure⟩
    · exact ⟨t', _, rfl, .inl
        ⟨run_of_written hcheck hwritten, FileTree.written_of_writeAll hwritten⟩⟩
    · obtain ⟨before, w, after, u, hsplit, hbefore, hw⟩ := FileTree.writeAll_eq_failure hwritten
      obtain ⟨hext, htext, hpath⟩ := FileTree.write_failure_spec hw
      exact ⟨t', _, rfl, .inr ⟨failure, before, w, after, u, run_of_failure hcheck hwritten, hsplit,
        hpath, hbefore, hw, (FileTree.written_of_writeAll hbefore).keep hext htext⟩⟩

def Backend.outline : Backend where
  name := "outline"
  path className _ := className ++ ".txt"
  render p _ := .ok (p.name ++ ": " ++ ", ".intercalate (p.fields.map FieldPlan.name))
  index? classes _ := some ("all.txt", ", ".intercalate classes)

def Schema.sampleOutlined : String :=
  "<s><class name='A'><attribute name='x'><primitive type='int'/></attribute></class></s>"

/-- A target, and another one whose directory is a file of the first. -/
def nestedTargets : List Target := [⟨.outline, "out"⟩, ⟨.java, "out/A.txt"⟩]

theorem writeAll_nestedTargets : (Schema.read Schema.sampleOutlined).toOption.map (fun loaded =>
    (loaded.warnings ++ loaded.schema.registry.validate,
      (loaded.schema.writes nestedTargets).take 2,
      (loaded.schema.writes nestedTargets).map FileWrite.path,
      ((FileTree.empty ["work"]).writeAll (loaded.schema.writes nestedTargets)).2)) =
    some ([], [⟨"out/A.txt", "A: x"⟩, ⟨"out/all.txt", "A"⟩],
      ["out/A.txt", "out/all.txt", "out/A.txt/pdugen/generated/A.java"],
      some ⟨"out/A.txt/pdugen/generated", .notDirectory⟩) := by
  decide +kernel

/-- The files of the first target are written, and the first of the second one fails. -/
theorem run_effect_below : ∃ t', run Schema.sampleOutlined nestedTargets (.empty ["work"]) =
      (t', .error (.io ⟨"out/A.txt/pdugen/generated", .notDirectory⟩)) ∧
    (FileTree.empty ["work"]).Written t' [⟨"out/A.txt", "A: x"⟩, ⟨"out/all.txt", "A"⟩] := by
  obtain ⟨loaded, hread, h⟩ := Option.map_eq_some_iff.1 writeAll_nestedTargets
  replace hread := Outcome.toOption_eq_some.1 hread
  obtain ⟨hnone, h⟩ := Prod.mk.inj h
  obtain ⟨hwrites, h⟩ := Prod.mk.inj h
  obtain ⟨hpaths, hfailure⟩ := Prod.mk.inj h
  have hcheck := Schema.check_of_not_error hread hnone.symm (by simp)
  have hio := run_of_failure hcheck (Prod.ext rfl hfailure)
  obtain ⟨-, heffect⟩ := run_effect Schema.sampleOutlined nestedTargets (.empty ["work"])
  obtain ⟨t', _, rfl, ⟨hrun, -⟩ | ⟨failure, before, w, after, u, hrun, hsplit, hpath, -, -, hfiles⟩⟩ :=
    (heffect loaded [] hread hnone.symm).2 (by simp)
  · rw [hio] at hrun
    cases hrun
  · rw [hio] at hrun
    cases hrun
    rw [hsplit, List.map_append, List.map_cons] at hpaths
    rw [hsplit] at hwrites
    -- The failure is not that of one of the first two files.
    obtain _ | ⟨v, _ | ⟨v', _ | ⟨v'', before⟩⟩⟩ := before
    · rw [(List.cons.inj hpaths).1] at hpath
      exact absurd hpath (by decide +kernel)
    · rw [(List.cons.inj (List.cons.inj hpaths).2).1] at hpath
      exact absurd hpath (by decide +kernel)
    · exact ⟨_, hio, hwrites ▸ hfiles⟩
    · simp at hpaths

end Run

end WireSchema
