import WireSchema.Proofs.Output.Paths
import WireSchema.Proofs.Output.Writing

namespace WireSchema

namespace Rust

theorem escape_eq_escape {x y : String} : escape x = escape y ↔
    x = y ∨ (x ∈ keywords ∧ y = x ++ "_") ∨ (y ∈ keywords ∧ x = y ++ "_") := by
  constructor
  · intro h
    by_cases hx : x ∈ keywords
    · rw [escape_of_mem hx] at h
      by_cases hy : y ∈ keywords
      · rw [escape_of_mem hy] at h
        exact .inl (by simpa using h)
      · rw [escape_of_notMem hy] at h
        exact .inr (.inl ⟨hx, h.symm⟩)
    · rw [escape_of_notMem hx] at h
      by_cases hy : y ∈ keywords
      · rw [escape_of_mem hy] at h
        exact .inr (.inr ⟨hy, h⟩)
      · rw [escape_of_notMem hy] at h
        exact .inl h
  · rintro (rfl | ⟨hx, rfl⟩ | ⟨hy, rfl⟩)
    · rfl
    · rw [escape_of_mem hx, escape_of_notMem (append_notMem_keywords x)]
    · rw [escape_of_mem hy, escape_of_notMem (append_notMem_keywords y)]

theorem moduleName_ne_mod (className : String) : moduleName className ≠ "mod" := by
  intro h
  have hmod : "mod" ∈ keywords := by decide
  by_cases hk : Naming.snake className ∈ keywords
  · rw [moduleName, escape_of_mem hk] at h
    exact append_notMem_keywords _ (h ▸ hmod)
  · rw [moduleName, escape_of_notMem hk] at h
    exact hk (h ▸ hmod)

end Rust

namespace Language

variable {b : Language} {settings : Settings} {m n : String}

/-- Two names that become the same identifier, or of which one is a keyword and the other the keyword
with an underscore. -/
def SameIdentifier (m n : String) : Language → Prop
  | rust =>
    Naming.snake m = Naming.snake n ∨
      (Naming.snake m ∈ Rust.keywords ∧ Naming.snake n = Naming.snake m ++ "_") ∨
      (Naming.snake n ∈ Rust.keywords ∧ Naming.snake m = Naming.snake n ++ "_")
  | java => Naming.pascal m = Naming.pascal n

theorem fileName_eq_fileName : b.fileName m = b.fileName n ↔ b.SameIdentifier m n := by
  cases b with
  | rust =>
      rw [SameIdentifier, ← Rust.escape_eq_escape]
      exact String.append_left_inj _
  | java => exact String.append_left_inj _

def indexFiles : Language → List String
  | rust => ["mod.rs"]
  | java => []

theorem indexFiles_nodup (b : Language) : b.indexFiles.Nodup := by
  cases b <;> decide

theorem isName_of_mem_indexFiles (b : Language) {f : String} (h : f ∈ b.indexFiles) :
    Path.IsName f := by
  cases b with
  | rust =>
      rw [List.mem_singleton.1 h]
      exact ⟨by decide, by decide, by decide, by decide⟩
  | java => cases h

theorem indexFiles_eq (b : Language) (settings : Settings) :
    b.indexFiles.map (Path.join (b.directory settings)) = b.indexFiles := by
  cases b <;> rfl

theorem fileName_notMem_indexFiles (b : Language) (className : String) :
    b.fileName className ∉ b.indexFiles := by
  cases b with
  | rust =>
      intro h
      have hpath : Rust.moduleName className ++ ".rs" = "mod" ++ ".rs" := List.mem_singleton.1 h
      exact Rust.moduleName_ne_mod className ((String.append_left_inj _).1 hpath)
  | java => exact List.not_mem_nil

/-- The path of a class is never that of the index, even if it leads to the same file. -/
theorem components_notMem_indexFiles (b : Language) (settings : Settings) (className : String) :
    Path.components (b.backend.path className settings) ∉ b.indexFiles.map Path.components := by
  cases b with
  | rust =>
      intro h
      have hcomponents : Path.components (rust.fileName className) = ["mod.rs"] := by
        have hindex : Path.components "mod.rs" = ["mod.rs"] := by decide
        exact (List.mem_singleton.1 h).trans hindex
      obtain ⟨stem, ext, hname, hext, hlong, -⟩ := rust.fileName_eq className
      obtain ⟨front, last, -, hparts⟩ := Path.parts_append stem hext
      rw [← hname] at hparts
      have hlast : last ++ ext = "mod.rs" :=
        Path.eq_of_components_singleton hparts hcomponents (Path.append_ne hlong last (by decide))
          (Path.append_ne hlong last (by decide))
      rw [hlast] at hparts
      have hmod : Path.IsName "mod.rs" := ⟨by decide, by decide, by decide, by decide⟩
      refine fileName_notMem_indexFiles .rust className ?_
      rw [Path.eq_of_components hmod hparts hcomponents]
      exact List.mem_singleton_self _
  | java => exact List.not_mem_nil

theorem indexUnit_paths (b : Language) (settings : Settings) (classes : List String) :
    (b.backend.indexUnit settings classes).map (fun u => (u.className, u.path)) =
      b.indexFiles.map fun path => (none, path) := by
  cases b <;> rfl

end Language

namespace Schema

theorem paths_classUnits {s : Schema} {b : Backend} {ds : List ClassDef}
    (h : s.classFailures b ds = []) :
    (s.classUnits b ds).map (fun u => (u.className, u.path)) =
      ds.map fun d => (some d.name, b.path d.name (s.settings b.name)) := by
  induction ds with
  | nil => rfl
  | cons d ds ih =>
      rw [classFailures_cons, List.append_eq_nil_iff] at h
      rw [classUnits_cons, List.map_append, ih h.2, List.map_cons]
      cases hd : s.result b d with
      | error f => simp [hd, ClassFailure.ofResult?] at h
      | ok u =>
          obtain ⟨hname, hpath, -⟩ := Backend.unit_eq_ok.1 hd
          simp [Except.toOption, hname, hpath]

variable {s : Schema} {b : Language} {out : BackendOutput}

theorem units_eq (hout : s.generate [b.backend] = [out]) (hfailures : out.failures = []) :
    out.units.map (fun u => (u.className, u.path)) =
      s.registry.names.map (fun n => (some n, b.backend.path n (s.settings b.backend.name))) ++
        b.indexFiles.map fun path => (none, path) := by
  rw [generate_eq, List.map_singleton, List.cons_eq_cons, output_eq] at hout
  obtain ⟨rfl, -⟩ := hout
  rw [List.map_append, paths_classUnits hfailures, Language.indexUnit_paths, Registry.names,
    List.map_map]
  rfl

theorem paths_eq (hout : s.generate [b.backend] = [out]) (hfailures : out.failures = []) :
    out.units.map GeneratedUnit.path =
      s.registry.names.map (b.backend.path · (s.settings b.backend.name)) ++ b.indexFiles := by
  have hunits := congrArg (List.map Prod.snd) (units_eq hout hfailures)
  simpa [List.map_map, Function.comp_def] using hunits

theorem nodup_components_iff (hout : s.generate [b.backend] = [out])
    (hfailures : out.failures = []) : (out.units.map fun u => Path.components u.path).Nodup ↔
      s.registry.names.Pairwise fun m n =>
        Path.components (b.backend.path m (s.settings b.backend.name)) ≠
          Path.components (b.backend.path n (s.settings b.backend.name)) := by
  have hpaths := congrArg (List.map Path.components) (paths_eq hout hfailures)
  rw [List.map_append, List.map_map, List.map_map] at hpaths
  change (out.units.map (Path.components ∘ GeneratedUnit.path)).Nodup ↔ _
  rw [hpaths, List.nodup_append', List.Nodup, List.pairwise_map, and_iff_left]
  · rfl
  · refine ⟨?_, fun components hclass hindex => ?_⟩
    · cases b <;> decide
    · obtain ⟨n, -, rfl⟩ := List.mem_map.1 hclass
      exact b.components_notMem_indexFiles _ n hindex

/-- What tells files of one directory apart by their names tells those of classes without slashes in
their names apart by identifiers. -/
theorem nodup_map_path_iff (hout : s.generate [b.backend] = [out]) (hfailures : out.failures = [])
    (hnames : ∀ n ∈ s.registry.names, Path.separator ∉ n.toList) {α : Type} {g k : String → α}
    (hk : k.Injective)
    (hg : ∀ f, Path.IsName f → g (Path.join (b.directory (s.settings b.backend.name)) f) = k f) :
    (out.units.map fun u => g u.path).Nodup ↔
      s.registry.names.Pairwise fun m n => ¬b.SameIdentifier m n := by
  have hfiles : out.units.map GeneratedUnit.path =
      (s.registry.names.map b.fileName ++ b.indexFiles).map
        (Path.join (b.directory (s.settings b.backend.name))) := by
    rw [paths_eq hout hfailures, List.map_append, List.map_map, b.indexFiles_eq]
    simp only [Language.path_eq]
    rfl
  have hname : ∀ f ∈ s.registry.names.map b.fileName ++ b.indexFiles, Path.IsName f := by
    intro f hf
    rcases List.mem_append.1 hf with hf | hf
    · obtain ⟨n, hn, rfl⟩ := List.mem_map.1 hf
      exact b.isName_fileName (hnames n hn)
    · exact b.isName_of_mem_indexFiles hf
  have hmap : (out.units.map fun u => g u.path) =
      (s.registry.names.map b.fileName ++ b.indexFiles).map k := by
    calc (out.units.map fun u => g u.path)
      _ = (out.units.map GeneratedUnit.path).map g := by rw [List.map_map]; rfl
      _ = _ := by
        rw [hfiles, List.map_map]
        exact List.map_congr_left fun f hf => hg f (hname f hf)
  rw [hmap, List.nodup_map_iff hk, List.nodup_append', List.Nodup, List.pairwise_map, and_iff_left]
  · simp only [Ne, Language.fileName_eq_fileName]
  · refine ⟨b.indexFiles_nodup, fun f hclass hindex => ?_⟩
    obtain ⟨n, -, rfl⟩ := List.mem_map.1 hclass
    exact b.fileName_notMem_indexFiles n hindex

theorem writes_single (hout : s.generate [b.backend] = [out]) (directory : String) :
    s.writes [⟨b.backend, directory⟩] =
      out.units.map fun u => ⟨Path.join directory u.path, u.text⟩ := by
  simp [writes, hout]

end Schema

namespace FileTree

variable {t t' : FileTree} {directory f : String} {ws : List FileWrite}

theorem Written.each (h : t.Written t' ws) (hplaces : (ws.map fun w => t'.place w.path).Nodup)
    {w : FileWrite} (hw : w ∈ ws) : t'.Resolves w.path (t'.place w.path) ∧
      t'.text? (t'.place w.path) = some w.text := by
  obtain ⟨l, hl⟩ := h.resolves w hw
  obtain rfl := hl.eq_place
  obtain ⟨before, after, rfl⟩ := List.append_of_mem hw
  refine ⟨hl, h.last before w after _ rfl hl fun v hv hresolves => ?_⟩
  rw [List.map_append, List.map_cons] at hplaces
  have hnotMem := (List.nodup_cons.1 hplaces.of_append_right).1
  exact hnotMem (List.mem_map.2 ⟨v, hv, hresolves.eq_place.symm⟩)

theorem place_name (hf : Path.IsName f) (t : FileTree) (directory base : String) :
    t.place (Path.join directory (Path.join base f)) = f :: t.place (Path.join directory base) := by
  rw [← Path.join_assoc, place_join hf.isAbsolute, hf.parts, List.foldl_cons, List.foldl_nil,
    Location.step_of_ne hf.ne_empty hf.ne_dot hf.ne_dots]

theorem Written.separate {units : List GeneratedUnit}
    (h : t.Written t' (units.map fun u => ⟨Path.join directory u.path, u.text⟩)) :
    (∃ ls : List Location, ls.Nodup ∧
      List.Forall₂ (fun u l => t'.Resolves (Path.join directory u.path) l ∧
        t'.text? l = some u.text) units ls) ↔
      (units.map fun u => t.place (Path.join directory u.path)).Nodup := by
  have hplace (path : String) : t'.place path = t.place path := h.kept.place path
  constructor
  · rintro ⟨ls, hls, hfiles⟩
    have hmap : (units.map fun u => t.place (Path.join directory u.path)) = ls := by
      clear h hls
      induction hfiles with
      | nil => rfl
      | cons hl _ ih => rw [List.map_cons, ih, hl.1.eq_place, hplace]
    rwa [hmap]
  · intro hplaces
    refine ⟨_, hplaces, ?_⟩
    rw [List.forall₂_map_right_iff, List.forall₂_same]
    intro u hu
    have heach := h.each (by simpa only [List.map_map, Function.comp_def, hplace] using hplaces)
      (List.mem_map_of_mem hu)
    rwa [hplace] at heach

end FileTree

theorem written_of_run {source : String} {loaded : Loaded} {targets : List Target}
    {t t' : FileTree} {report : Report} (h : Schema.check source = .ok loaded)
    (hrun : run source targets t = (t', .ok report)) :
    t.Written t' (loaded.schema.writes targets) := by
  rcases hwrites : t.writeAll (loaded.schema.writes targets) with ⟨u, _ | failure⟩
  · rw [run_of_written h hwrites] at hrun
    cases hrun
    exact FileTree.written_of_writeAll hwrites
  · rw [run_of_failure h hwrites] at hrun
    cases hrun

/-- If a language reports no failure, its files are those of the classes and the index. Their paths
are distinct exactly if those of the classes are, and a run leaves each of them with its own text
exactly if they lead to different places. For classes without slashes in their names, both hold
exactly if no two of the names become the same identifier. -/
theorem run_separate {source : String} {loaded : Loaded} (h : Schema.check source = .ok loaded)
    {b : Language} {out : BackendOutput} (hout : loaded.schema.generate [b.backend] = [out])
    (hfailures : out.failures = []) {settings : Settings}
    (hsettings : settings = loaded.schema.settings b.backend.name) :
    out.units.map (fun u => (u.className, u.path)) =
      loaded.schema.registry.names.map (fun n => (some n, b.backend.path n settings)) ++
        b.indexFiles.map (fun path => (none, path)) ∧
    ((out.units.map fun u => Path.components u.path).Nodup ↔
      loaded.schema.registry.names.Pairwise fun m n =>
        Path.components (b.backend.path m settings) ≠
          Path.components (b.backend.path n settings)) ∧
    (∀ directory t t' report, run source [⟨b.backend, directory⟩] t = (t', .ok report) →
      ((∃ ls : List Location, ls.Nodup ∧
          List.Forall₂ (fun u l => t'.Resolves (Path.join directory u.path) l ∧
            t'.text? l = some u.text) out.units ls) ↔
        (out.units.map fun u => t.place (Path.join directory u.path)).Nodup)) ∧
    ((∀ n ∈ loaded.schema.registry.names, Path.separator ∉ n.toList) →
      ((out.units.map fun u => Path.components u.path).Nodup ↔
        loaded.schema.registry.names.Pairwise fun m n => ¬b.SameIdentifier m n) ∧
      ∀ directory (t : FileTree),
        (out.units.map fun u => t.place (Path.join directory u.path)).Nodup ↔
          loaded.schema.registry.names.Pairwise fun m n => ¬b.SameIdentifier m n) := by
  subst hsettings
  refine ⟨Schema.units_eq hout hfailures, Schema.nodup_components_iff hout hfailures,
    fun directory t t' report hrun => ?_, fun hnames => ⟨?_, fun directory t => ?_⟩⟩
  · have hwritten := written_of_run h hrun
    rw [Schema.writes_single hout] at hwritten
    exact hwritten.separate
  · exact Schema.nodup_map_path_iff (g := Path.components) hout hfailures hnames
      (List.append_right_injective _ |>.comp List.singleton_injective)
      fun f hf => Path.components_join hf
  · exact Schema.nodup_map_path_iff (g := fun path => t.place (Path.join directory path)) hout
      hfailures hnames (fun f g h => (List.cons.inj h).1)
      fun f hf => FileTree.place_name hf t directory _

def Schema.apart : String := "<s><class name='mod'/><class name='A'/></s>"

theorem Schema.check_apart : ((Schema.check Schema.apart).toOption.map fun loaded =>
    (loaded.schema.registry.names, (loaded.schema.generate [.rust]).map BackendOutput.failures,
      (run Schema.apart [⟨.rust, "out"⟩] (.empty ["work"])).2.isOk)) =
    some (["mod", "A"], [[]], true) := by
  decide +kernel

theorem run_separate_apart : ∃ loaded out t' report, Schema.check Schema.apart = .ok loaded ∧
    loaded.schema.generate [.rust] = [out] ∧ out.failures = [] ∧
    run Schema.apart [⟨.rust, "out"⟩] (.empty ["work"]) = (t', .ok report) ∧
    (out.units.map fun u => Path.components u.path).Nodup ∧
    ∃ ls : List Location, ls.Nodup ∧
      List.Forall₂ (fun u l => t'.Resolves (Path.join "out" u.path) l ∧
        t'.text? l = some u.text) out.units ls := by
  obtain ⟨loaded, hloaded, h⟩ := Option.map_eq_some_iff.1 Schema.check_apart
  obtain ⟨hnames, h⟩ := Prod.mk.inj h
  obtain ⟨hfailures, hok⟩ := Prod.mk.inj h
  have hcheck := Outcome.toOption_eq_some.1 hloaded
  obtain ⟨out, hout⟩ := loaded.schema.exists_output .rust
  rw [hout] at hfailures
  have hfailures : out.failures = [] := (List.cons.inj hfailures).1
  obtain ⟨t', report, hrun⟩ : ∃ t' report,
      run Schema.apart [⟨.rust, "out"⟩] (.empty ["work"]) = (t', .ok report) := by
    rcases hrun : run Schema.apart [⟨.rust, "out"⟩] (.empty ["work"]) with ⟨t', _ | report⟩
    · rw [hrun] at hok
      cases hok
    · exact ⟨t', report, rfl⟩
  have hdistinct : loaded.schema.registry.names.Pairwise fun m n =>
      ¬Language.rust.SameIdentifier m n := by
    rw [hnames]
    simp only [Language.SameIdentifier]
    decide
  obtain ⟨-, -, hfiles, hplain⟩ := run_separate (b := .rust) hcheck hout hfailures rfl
  obtain ⟨hpaths, hplaces⟩ := hplain (by rw [hnames]; decide)
  exact ⟨loaded, out, t', report, hcheck, hout, hfailures, hrun, hpaths.2 hdistinct,
    (hfiles "out" _ t' report hrun).2 ((hplaces "out" _).2 hdistinct)⟩

/-- Two classes whose names are the same in either style. -/
def Schema.alike : String := "<s><class name='A'/><class name='a'/></s>"

theorem Schema.check_alike : ((Schema.check Schema.alike).toOption.map fun loaded =>
    ((loaded.schema.generate [.rust, .java]).map fun out =>
        (out.units.map GeneratedUnit.path, out.failures),
      (run Schema.alike [⟨.rust, "out"⟩] (.empty ["work"])).1.root.files.map Prod.fst)) =
    some ([(["a.rs", "a.rs", "mod.rs"], []),
        (["pdugen/generated/A.java", "pdugen/generated/A.java"], [])],
      [["work", "out", "a.rs"], ["work", "out", "mod.rs"]]) := by
  decide +kernel

/-- They share a path, and one of them is lost. -/
theorem run_overwrites : ∃ loaded, Schema.check Schema.alike = .ok loaded ∧
    (∀ b : Language, ∃ out, loaded.schema.generate [b.backend] = [out] ∧ out.failures = [] ∧
      ¬(out.units.map fun u => Path.components u.path).Nodup) ∧
    (run Schema.alike [⟨.rust, "out"⟩] (.empty ["work"])).1.root.files.map Prod.fst =
      [["work", "out", "a.rs"], ["work", "out", "mod.rs"]] := by
  obtain ⟨loaded, hloaded, h⟩ := Option.map_eq_some_iff.1 Schema.check_alike
  obtain ⟨hout, hfiles⟩ := Prod.mk.inj h
  refine ⟨loaded, Outcome.toOption_eq_some.1 hloaded, fun b => ?_, hfiles⟩
  simp only [Schema.generate_eq, List.map_cons, List.map_nil, List.cons.injEq, Prod.mk.injEq,
    and_true] at hout
  have hcomponents (units : List GeneratedUnit) : (units.map fun u => Path.components u.path) =
      (units.map GeneratedUnit.path).map Path.components := by
    rw [List.map_map]
    rfl
  refine ⟨_, loaded.schema.generate_eq [b.backend], ?_, ?_⟩
  · cases b with
    | rust => exact hout.1.2
    | java => exact hout.2.2
  · rw [hcomponents]
    cases b with
    | rust =>
        rw [Language.backend, hout.1.1]
        decide
    | java =>
        rw [Language.backend, hout.2.1]
        decide

end WireSchema
