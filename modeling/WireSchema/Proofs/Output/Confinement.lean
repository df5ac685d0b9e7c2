import WireSchema.Proofs.Output.Paths
import WireSchema.Proofs.Output.Writing

namespace WireSchema

def Location.IsBelow (l base : Location) : Prop :=
  ∃ name names, l = name :: names ++ base

namespace Language

variable {b : Language} {settings : Settings} {className : String}

/-- The name of a class, and that of the package, do not lead out of a directory. -/
def KeepsBelow (b : Language) (settings : Settings) (className : String) : Prop :=
  Path.IsStem (b.spelled className) ∧
    ∀ word ∈ b.packageWords settings, Path.isAbsolute word = false

theorem isConfined_path :
    Path.IsConfined (b.backend.path className settings) ↔ b.KeepsBelow settings className := by
  obtain ⟨stem, ext, hname, hext, hlong, hrespelled⟩ := b.fileName_eq className
  rw [path_eq, Path.isConfined_join, isConfined_directory, hname, Path.isConfined_append hext hlong,
    Path.isStem_of_respelled hrespelled, KeepsBelow, and_comm]

theorem exists_name_path (b : Language) (settings : Settings) (className : String)
    (hrelative : Path.isAbsolute (b.fileName className) = false) :
    ∃ name ∈ Path.parts (b.backend.path className settings), name ≠ "" ∧ name ≠ "." := by
  obtain ⟨stem, ext, hname, hext, hlong, -⟩ := b.fileName_eq className
  obtain ⟨front, hjoin, -⟩ := Path.parts_lead_append (b.directory settings) (b.fileName className)
  obtain ⟨front', last, -, hlast⟩ := Path.parts_append stem hext
  refine ⟨last ++ ext, ?_, Path.append_ne hlong last (by decide),
    Path.append_ne hlong last (by decide)⟩
  rw [path_eq, Path.join_of_relative hrelative, hjoin, hname, hlast]
  simp

end Language

namespace FileTree

variable {t t' : FileTree} {path : String}

theorem place_isBelow (hpath : Path.IsConfined path)
    (hname : ∃ name ∈ Path.parts path, name ≠ "" ∧ name ≠ ".") (t : FileTree) (directory : String) :
    (t.place (Path.join directory path)).IsBelow (t.place directory) := by
  obtain ⟨name, hmem, hne⟩ := hname
  rw [place_join hpath.1, Location.foldl_step hpath.2]
  have hnames : ((Path.parts path).filter fun part => part ≠ "" ∧ part ≠ ".").reverse ≠ [] := by
    rw [Ne, List.reverse_eq_nil_iff]
    exact List.ne_nil_of_mem (List.mem_filter.2 ⟨hmem, by simpa using hne⟩)
  obtain ⟨last, names, h⟩ := List.exists_cons_of_ne_nil hnames
  exact ⟨last, names, by rw [h]⟩

theorem exists_written (t : FileTree) (ws : List FileWrite) :
    ∃ done, done <+: ws ∧ t.Written (t.writeAll ws).1 done := by
  rcases h : t.writeAll ws with ⟨t', _ | failure⟩
  · exact ⟨ws, List.prefix_rfl, written_of_writeAll h⟩
  · obtain ⟨before, w, after, u, rfl, hbefore, hw⟩ := writeAll_eq_failure h
    obtain ⟨hext, htext, -⟩ := write_failure_spec hw
    exact ⟨before, List.prefix_append .., (written_of_writeAll hbefore).keep hext htext⟩

theorem exists_of_text?_ne {ws : List FileWrite} {l : Location}
    (h : (t.writeAll ws).1.text? l ≠ t.text? l) : ∃ w ∈ ws, l = t.place w.path := by
  obtain ⟨done, hdone, hwritten⟩ := t.exists_written ws
  by_contra hnone
  refine h (hwritten.others l fun w hw hl => hnone ⟨w, hdone.subset hw, ?_⟩)
  rw [hl.eq_place, hwritten.kept.place]

end FileTree

namespace Schema

variable {s : Schema} {b : Language} {out : BackendOutput} {u : GeneratedUnit}

theorem of_mem_units (hout : s.generate [b.backend] = [out]) (hu : u ∈ out.units) :
    (∃ n ∈ s.registry.names, u.className = some n ∧
      u.path = b.backend.path n (s.settings b.backend.name)) ∨
      u.className = none ∧ u.path = "mod.rs" := by
  rw [generate_eq, List.map_singleton, List.cons_eq_cons, output_eq] at hout
  obtain ⟨rfl, -⟩ := hout
  rcases List.mem_append.1 hu with hu | hu
  · obtain ⟨d, hd, hresult⟩ := mem_classUnits.1 hu
    obtain ⟨hname, hpath, -⟩ := Backend.unit_eq_ok.1 hresult
    exact .inl ⟨d.name, List.mem_map_of_mem hd, hname, hpath⟩
  · cases b with
    | rust =>
        rw [List.mem_singleton.1 hu]
        exact .inr ⟨rfl, rfl⟩
    | java => cases hu

theorem isConfined_index : Path.IsConfined "mod.rs" :=
  ⟨rfl, by decide⟩

theorem isConfined_unit (hout : s.generate [b.backend] = [out]) (hu : u ∈ out.units) :
    Path.IsConfined u.path ↔
      ∀ n, u.className = some n → b.KeepsBelow (s.settings b.backend.name) n := by
  rcases of_mem_units hout hu with ⟨n, -, hname, hpath⟩ | ⟨hname, hpath⟩
  · simp only [hname, hpath, Language.isConfined_path, Option.some.injEq, forall_eq']
  · simp [hname, hpath, isConfined_index]

theorem place_unit_isBelow (hout : s.generate [b.backend] = [out]) (hu : u ∈ out.units)
    (hconfined : Path.IsConfined u.path) (t : FileTree) (directory : String) :
    (t.place (Path.join directory u.path)).IsBelow (t.place directory) := by
  refine FileTree.place_isBelow hconfined ?_ t directory
  rcases of_mem_units hout hu with ⟨n, -, -, hpath⟩ | ⟨-, hpath⟩
  · rw [hpath, Language.path_eq, Path.isConfined_join] at hconfined
    rw [hpath]
    exact b.exists_name_path _ n hconfined.2.1
  · rw [hpath]
    exact ⟨"mod.rs", by decide, by decide, by decide⟩

end Schema

/-- The path of a file is confined exactly if the names that it is made of keep below. Where those
of all classes do, a run changes no file but such as are below the directories of its targets. -/
theorem run_confined {source : String} {loaded : Loaded} (h : Schema.check source = .ok loaded) :
    (∀ (b : Language) out u, loaded.schema.generate [b.backend] = [out] → u ∈ out.units →
      (Path.IsConfined u.path ↔
        ∀ n, u.className = some n → b.KeepsBelow (loaded.schema.settings b.backend.name) n)) ∧
    ∀ (targets : List (Language × String)) t,
      (∀ target ∈ targets, ∀ n ∈ loaded.schema.registry.names,
        target.1.KeepsBelow (loaded.schema.settings target.1.backend.name) n) →
      ∀ l, (run source (targets.map fun (b, directory) => ⟨b.backend, directory⟩) t).1.text? l ≠
          t.text? l →
        ∃ target ∈ targets, l.IsBelow (t.place target.2) := by
  refine ⟨fun b out u => Schema.isConfined_unit, fun targets t hkeeps l hl => ?_⟩
  rw [run_fst h] at hl
  obtain ⟨w, hw, rfl⟩ := FileTree.exists_of_text?_ne hl
  obtain ⟨_, htarget, hw⟩ := List.mem_flatMap.1 hw
  obtain ⟨⟨b, directory⟩, hmem, rfl⟩ := List.mem_map.1 htarget
  obtain ⟨out, hout, hw⟩ := List.mem_flatMap.1 hw
  obtain ⟨u, hu, rfl⟩ := List.mem_map.1 hw
  obtain ⟨out', hout'⟩ := loaded.schema.exists_output b.backend
  obtain rfl : out = out' := List.mem_singleton.1 (hout' ▸ hout)
  refine ⟨(b, directory), hmem, Schema.place_unit_isBelow hout' hu ?_ t directory⟩
  rw [Schema.isConfined_unit hout' hu]
  intro n hn
  rcases Schema.of_mem_units hout' hu with ⟨n', hn', hname, -⟩ | ⟨hname, -⟩
  · rw [hn] at hname
    cases hname
    exact hkeeps (b, directory) hmem n hn'
  · rw [hn] at hname
    cases hname

def Schema.inward : String := "<s><class name='x/..'/></s>"

theorem Schema.check_inward : ((Schema.check Schema.inward).toOption.map fun loaded =>
    (loaded.schema.registry.names,
      ((run Schema.inward [⟨.rust, "out"⟩] (.empty ["work"])).1.text?
        ["...rs", "x", "out", "work"]).isSome)) = some (["x/.."], true) := by
  decide +kernel

theorem run_confined_inward : ∃ loaded, Schema.check Schema.inward = .ok loaded ∧
    (∀ n ∈ loaded.schema.registry.names,
      Language.rust.KeepsBelow (loaded.schema.settings Backend.rust.name) n) ∧
    (run Schema.inward [⟨.rust, "out"⟩] (.empty ["work"])).1.text? ["...rs", "x", "out", "work"] ≠
      (FileTree.empty ["work"]).text? ["...rs", "x", "out", "work"] ∧
    Location.IsBelow ["...rs", "x", "out", "work"] ((FileTree.empty ["work"]).place "out") := by
  obtain ⟨loaded, hloaded, h⟩ := Option.map_eq_some_iff.1 Schema.check_inward
  obtain ⟨hnames, htext⟩ := Prod.mk.inj h
  have hcheck := Outcome.toOption_eq_some.1 hloaded
  have hkeeps : ∀ n ∈ loaded.schema.registry.names,
      Language.rust.KeepsBelow (loaded.schema.settings Backend.rust.name) n := by
    rw [hnames]
    intro n hn
    obtain rfl := List.mem_singleton.1 hn
    exact ⟨⟨by decide, by decide⟩, fun _ h => nomatch h⟩
  have hchanged : (run Schema.inward [⟨.rust, "out"⟩] (.empty ["work"])).1.text?
      ["...rs", "x", "out", "work"] ≠ (FileTree.empty ["work"]).text? ["...rs", "x", "out", "work"] := by
    intro heq
    rw [heq] at htext
    exact absurd htext (by decide)
  have htargets : ∀ target ∈ [(Language.rust, "out")], ∀ n ∈ loaded.schema.registry.names,
      target.1.KeepsBelow (loaded.schema.settings target.1.backend.name) n := by
    intro target htarget
    rw [List.mem_singleton.1 htarget]
    exact hkeeps
  obtain ⟨target, htarget, hbelow⟩ := (run_confined hcheck).2 _ _ htargets _ hchanged
  obtain rfl := List.mem_singleton.1 htarget
  exact ⟨loaded, hcheck, hkeeps, hchanged, hbelow⟩

/-- A class whose name leads to the directory above. -/
def Schema.upward : String := "<s><class name='../a'/></s>"

theorem Schema.check_upward : ((Schema.check Schema.upward).toOption.bind fun loaded =>
    (loaded.schema.generate [.rust]).head?.bind fun out => out.units.head?.map fun u =>
      (u.path, ((run Schema.upward [⟨.rust, "out"⟩] (.empty ["work"])).1.text?
        ["a.rs", "work"]).isSome)) = some ("../a.rs", true) := by
  decide +kernel

/-- Its file is written beside the directory of the target. -/
theorem run_escapes : ∃ loaded out u text, Schema.check Schema.upward = .ok loaded ∧
    loaded.schema.generate [.rust] = [out] ∧ u ∈ out.units ∧ ¬Path.IsConfined u.path ∧
    (FileTree.empty ["work"]).text? ["a.rs", "work"] = none ∧
    (run Schema.upward [⟨.rust, "out"⟩] (.empty ["work"])).1.text? ["a.rs", "work"] = some text ∧
    ¬Location.IsBelow ["a.rs", "work"] ((FileTree.empty ["work"]).place "out") := by
  obtain ⟨loaded, hloaded, h⟩ := Option.bind_eq_some_iff.1 Schema.check_upward
  obtain ⟨out, hout, h⟩ := Option.bind_eq_some_iff.1 h
  obtain ⟨u, hu, h⟩ := Option.map_eq_some_iff.1 h
  obtain ⟨hpath, htext⟩ := Prod.mk.inj h
  obtain ⟨out', hout'⟩ := loaded.schema.exists_output .rust
  rw [hout'] at hout
  cases hout
  obtain ⟨text, htext⟩ := Option.isSome_iff_exists.1 htext
  refine ⟨loaded, out, u, text, Outcome.toOption_eq_some.1 hloaded, hout',
    List.mem_of_mem_head? hu, ?_, by decide, htext, ?_⟩
  · rw [hpath, Path.IsConfined]
    decide
  · have hplace : (FileTree.empty ["work"]).place "out" = ["out", "work"] := by decide
    rw [hplace]
    rintro ⟨name, names, h⟩
    have hlength := congrArg List.length h
    simp at hlength

end WireSchema
