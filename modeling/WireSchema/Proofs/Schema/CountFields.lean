import WireSchema.Proofs.Plan.Agreement
import WireSchema.Proofs.Schema.Reading

namespace WireSchema

open Markup (Node)

open Outcome

open Reader

namespace ClassDef

def listAt? (c : ClassDef) (j : Nat) : Option String :=
  c.fields[j]?.bind fun f => countField? f.type

/-- Where the count field of a list at `position` is: the first field of the name, if it stands before
the list and is a primitive. -/
def countPosition? (c : ClassDef) (position : Nat) (name : String) : Option Nat :=
  (c.fieldIndex? name).filter fun i =>
    decide (i < position) && c.fields[i]?.any fun f => f.typeName?.isSome

def linkWarning? (c : ClassDef) (position : Nat) (f : Field) : Option Diagnostic :=
  (countField? f.type).bind fun name =>
    if (c.countPosition? position name).isSome then none
    else some ⟨c.name, some f.name, .countNotEarlier name⟩

def linkWarnings (c : ClassDef) : List Diagnostic :=
  c.fields.zipIdx.filterMap fun x => c.linkWarning? x.2 x.1

end ClassDef

theorem getElem?_append_singleton {α : Type} {xs : List α} {x y : α} {i : Nat}
    (h : (xs ++ [y])[i]? = some x) : xs[i]? = some x ∨ i = xs.length ∧ x = y := by
  by_cases hi : i < xs.length
  · rw [List.getElem?_append_left hi] at h
    exact .inl h
  · have hlength := (List.getElem?_eq_some_iff.1 h).1
    rw [List.length_append, List.length_singleton] at hlength
    obtain rfl : i = xs.length := by omega
    exact .inr ⟨rfl, by simpa [eq_comm] using h⟩

theorem Field.typeName?_of_counts? {f : Field} {j : Nat} (h : f.counts? = some j) :
    f.typeName? ≠ none := by
  rw [Field.counts?] at h
  rw [Field.typeName?]
  cases htype : f.type <;> simp_all

theorem Field.counts?_of_countField? {f : Field} {n : String} (h : countField? f.type = some n) :
    f.counts? = none := by
  rw [Field.counts?]
  cases htype : f.type <;> simp_all [countField?]

/-- A field that is there once a list that names `n` has been opened counts that list, or is as it was
and not the first one of the name or no primitive. -/
theorem Reader.of_relink {n : String} {k i : Nat} {fs : List Field} {f : Field}
    (hf : (relink n k fs)[i]? = some f) :
    (fs[i]? = some f ∧ (fs.findIdx? (·.name == n) = some i → f.typeName? = none)) ∨
      (fs.findIdx? (·.name == n) = some i ∧ f.name = n ∧ f.counts? = some k) := by
  rw [relink] at hf
  cases hlink : linkCount? n k fs with
  | none =>
      rw [hlink] at hf
      exact .inl ⟨hf, fun hi => linkCount?_eq_none hlink hi hf⟩
  | some gs =>
      obtain ⟨m, g, typeName, default, counts, hm, hg, hn, -, rfl⟩ := linkCount?_eq_some hlink
      rw [hlink, Option.getD_some, List.getElem?_set] at hf
      split at hf
      next hmi =>
        subst hmi
        rw [if_pos (List.getElem?_eq_some_iff.1 hg).1] at hf
        cases hf
        exact .inr ⟨hm, hn, rfl⟩
      next hmi =>
        refine .inl ⟨hf, fun hi => absurd ?_ hmi⟩
        rw [hm] at hi
        exact Option.some.inj hi

theorem LinkedFields.first_and_last {fs : List Field} (h : LinkedFields fs) {i j : Nat} {f : Field}
    (hf : fs[i]? = some f) (hj : f.counts? = some j) :
    fs.findIdx? (·.name == f.name) = some i ∧
      ∀ (k : Nat) (g : Field), fs[k]? = some g → countField? g.type = some f.name → k ≤ j := by
  induction h generalizing i j f with
  | nil => simp at hf
  | @plain fs new before notList unlinked ih =>
      rcases getElem?_append_singleton hf with hf | ⟨-, rfl⟩
      · obtain ⟨hfirst, hlast⟩ := ih hf hj
        refine ⟨by rw [List.findIdx?_append, hfirst]; rfl, fun k g hg hn => ?_⟩
        rcases getElem?_append_singleton hg with hg | ⟨-, rfl⟩
        · exact hlast k g hg hn
        · obtain ⟨element, text, htype⟩ := countField?_eq_some.1 hn
          exact absurd htype (notList _ _ _)
      · simp [unlinked] at hj
  | @list fs new element n text before isList ih =>
      rw [List.findIdx?_append, findIdx?_relink]
      have hnew : countField? new.type = some n := by rw [isList]; rfl
      rcases getElem?_append_singleton hf with hf | ⟨-, rfl⟩
      · rcases of_relink hf with ⟨hf, hkept⟩ | ⟨hfirst, rfl, hcounts⟩
        · obtain ⟨hfirst, hlast⟩ := ih hf hj
          refine ⟨by rw [hfirst]; rfl, fun k g hg hn => ?_⟩
          rcases getElem?_append_singleton hg with hg | ⟨-, rfl⟩
          · rcases of_relink hg with ⟨hg, -⟩ | ⟨-, -, hcounts⟩
            · exact hlast k g hg hn
            · simp [Field.counts?_of_countField? hn] at hcounts
          · -- the new list would have been linked to the field
            obtain rfl : n = f.name := Option.some.inj (hnew.symm.trans hn)
            exact absurd (hkept hfirst) (Field.typeName?_of_counts? hj)
        · refine ⟨by rw [hfirst]; rfl, fun k g hg _ => ?_⟩
          obtain rfl : fs.length = j := Option.some.inj (hcounts.symm.trans hj)
          have hk := (List.getElem?_eq_some_iff.1 hg).1
          rw [List.length_append, length_relink, List.length_singleton] at hk
          omega
      · simp [Field.counts?_of_countField? hnew] at hj

namespace Reader

def linkable (n : String) (fs : List Field) : Bool :=
  (fs.find? (·.name == n)).any fun f => f.typeName?.isSome

theorem isSome_linkCount? (n : String) (k : Nat) (fs : List Field) :
    (linkCount? n k fs).isSome = linkable n fs := by
  induction fs with
  | nil => rfl
  | cons f fs ih =>
      rw [linkCount?, linkable]
      by_cases hname : f.name = n
      · cases htype : f.type <;> simp [hname, Field.typeName?, htype]
      · rw [List.find?_cons_of_neg (by simpa using hname), if_neg hname, Option.isSome_map]
        exact ih

theorem name_unlinked (f : Field) : f.unlinked.name = f.name := by
  rw [Field.unlinked]
  split <;> rfl

theorem typeName?_unlinked (f : Field) : f.unlinked.typeName? = f.typeName? := by
  cases htype : f.type <;> simp [Field.unlinked, Field.typeName?, htype]

theorem countField?_unlinked (f : Field) : countField? f.unlinked.type = countField? f.type := by
  cases htype : f.type <;> simp [Field.unlinked, countField?, htype]

theorem linkable_map_unlinked (n : String) (fs : List Field) :
    linkable n (fs.map Field.unlinked) = linkable n fs := by
  have hname : (fun f : Field => f.name == n) ∘ Field.unlinked = fun f => f.name == n := by
    funext f
    rw [Function.comp_apply, name_unlinked]
  rw [linkable, linkable, List.find?_map, hname, Option.any_map]
  congr 1
  funext f
  rw [typeName?_unlinked]

def warning? (className : String) (before : List Field) (f : Field) : Option Diagnostic :=
  (countField? f.type).bind fun n =>
    if linkable n before then none else some ⟨className, some f.name, .countNotEarlier n⟩

theorem warning?_unlinked (className : String) (fs : List Field) (f : Field) :
    warning? className (fs.map Field.unlinked) f.unlinked = warning? className fs f := by
  simp only [warning?, countField?_unlinked, name_unlinked, linkable_map_unlinked]

theorem isSome_filter_findIdx? {α : Type} (p q : α → Bool) (xs : List α) (j : Nat) :
    ((xs.findIdx? p).filter fun i => decide (i < j) && xs[i]?.any q).isSome =
      ((xs.take j).find? p).any q := by
  induction xs generalizing j with
  | nil => simp
  | cons x xs ih =>
      cases j with
      | zero => simp
      | succ j =>
          cases hp : p x with
          | true => simp [List.findIdx?_cons, hp]
          | false => simp [List.findIdx?_cons, hp, ← ih j, Option.filter_map, Function.comp_def]

theorem isSome_countPosition? (c : ClassDef) (j : Nat) (n : String) :
    (c.countPosition? j n).isSome = linkable n (c.fields.take j) :=
  isSome_filter_findIdx? _ _ _ j

theorem linkWarnings_eq (c : ClassDef) : c.linkWarnings =
    c.fields.zipIdx.filterMap fun x => warning? c.name (c.fields.take x.2) x.1 := by
  simp only [ClassDef.linkWarnings, ClassDef.linkWarning?, isSome_countPosition?, warning?]

theorem linkWarnings_unlinked (c : ClassDef) :
    { c with fields := c.fields.map Field.unlinked }.linkWarnings = c.linkWarnings := by
  simp only [linkWarnings_eq, List.zipIdx_map, List.filterMap_map, ← List.map_take]
  congr 1
  funext x
  exact warning?_unlinked c.name (c.fields.take x.2) x.1

theorem linkWarnings_append (c : ClassDef) (f : Field) :
    { c with fields := c.fields ++ [f] }.linkWarnings =
      c.linkWarnings ++ (warning? c.name c.fields f).toList := by
  simp only [linkWarnings_eq, List.zipIdx_append, List.filterMap_append]
  congr 1
  · apply List.filterMap_congr
    rintro ⟨g, j⟩ hmem
    have hj : j < c.fields.length :=
      (List.getElem?_eq_some_iff.1 (List.mem_zipIdx_iff_getElem?.1 hmem)).1
    rw [List.take_append_of_le_length (Nat.le_of_lt hj)]
  · cases h : warning? c.name c.fields f <;> simp [h]

theorem warnings_addField {d : Declared} (h : d.warnings = d.cls.linkWarnings) (f : Field) :
    (d.addField f).warnings = (d.addField f).cls.linkWarnings := by
  obtain ⟨fields, hfields, hcls⟩ := exists_addField d f
  have hwarnings : (d.addField f).warnings =
      d.warnings ++ (warning? d.cls.name d.cls.fields f).toList := by
    rw [Declared.addField, warning?]
    cases countField? f.type with
    | none => simp [Declared.link]
    | some n =>
        have hlink := isSome_linkCount? n d.cls.fields.length d.cls.fields
        rw [Declared.link]
        cases hcount : linkCount? n d.cls.fields.length d.cls.fields <;> simp_all
  have hold : { d.cls with fields := fields }.linkWarnings = d.cls.linkWarnings := by
    rw [← linkWarnings_unlinked, ← linkWarnings_unlinked d.cls, hfields]
  have hnew : warning? d.cls.name fields f = warning? d.cls.name d.cls.fields f := by
    rw [← warning?_unlinked, ← warning?_unlinked d.cls.name d.cls.fields, hfields]
  rw [hwarnings, hcls, linkWarnings_append { d.cls with fields := fields }, hold, hnew, h]

theorem warnings_readMember {d d' : Declared} {node : Node} (hd : d.warnings = d.cls.linkWarnings)
    (h : readMember d node = .ok d') : d'.warnings = d'.cls.linkWarnings := by
  rw [readMember] at h
  split at h
  next =>
    obtain ⟨f, -, rfl⟩ := map_eq_ok.1 h
    exact warnings_addField hd f
  next =>
    obtain ⟨value, -, h⟩ := bind_eq_ok.1 h
    cases h
    exact hd
  next =>
    rw [misplaced] at h
    split at h
    next => cases h
    next =>
      cases h
      exact hd

theorem warnings_readClass {d : Declared} {node : Node} (h : readClass node = .ok d) :
    d.warnings = d.cls.linkWarnings := by
  obtain ⟨c, hc, h⟩ := bind_eq_ok.1 h
  refine foldlM_keeps warnings_readMember ?_ h
  rw [ClassDef.linkWarnings, fields_of_beginClass hc]
  rfl

theorem warnings_readEntry {loaded loaded' : Loaded} {node : Node}
    (hloaded : loaded.warnings = loaded.schema.registry.classes.flatMap ClassDef.linkWarnings)
    (h : readEntry loaded node = .ok loaded') :
    loaded'.warnings = loaded'.schema.registry.classes.flatMap ClassDef.linkWarnings := by
  simp only [readEntry] at h
  split at h
  next =>
    obtain ⟨d, hd, h⟩ := bind_eq_ok.1 h
    split at h
    next => cases h
    next registry hregistry =>
      cases h
      rw [classes_of_insert? hregistry, List.flatMap_append, List.flatMap_singleton, hloaded,
        warnings_readClass hd]
  next =>
    cases h
    exact hloaded

end Reader

namespace Schema

variable {source : String} {loaded : Loaded}

theorem forall₂_classOf_of_readTree {root : Node} (h : readTree root = .ok loaded) :
    List.Forall₂ ClassOf (root.children.filter (Node.is .cls)) loaded.schema.registry.classes := by
  obtain ⟨⟨cs, hcs, hclasses⟩, -⟩ := entries_of_foldlM h
  rw [hclasses]
  exact hcs

end Schema

namespace ClassDef

theorem listAt?_eq_some {c : ClassDef} {j : Nat} {n : String} :
    c.listAt? j = some n ↔ ∃ g, c.fields[j]? = some g ∧ countField? g.type = some n :=
  Option.bind_eq_some_iff

theorem countPosition?_eq_some {c : ClassDef} {i j : Nat} {n : String}
    (h : c.countPosition? j n = some i) :
    c.fields.findIdx? (·.name == n) = some i ∧ i < j ∧
      ∃ f, c.fields[i]? = some f ∧ f.typeName?.isSome := by
  obtain ⟨hi, h⟩ := Option.filter_eq_some_iff.1 h
  simp only [Bool.and_eq_true, decide_eq_true_eq, Option.any_eq_true] at h
  exact ⟨hi, h.1, h.2⟩

theorem finding_of_mem_linkWarnings {c : ClassDef} {w : Diagnostic} (h : w ∈ c.linkWarnings) :
    ∃ n, w.finding = .countNotEarlier n := by
  obtain ⟨x, -, h⟩ := List.mem_filterMap.1 h
  obtain ⟨n, -, h⟩ := Option.bind_eq_some_iff.1 h
  split at h
  · cases h
  · cases h
    exact ⟨n, rfl⟩

end ClassDef

/-- After reading, a field counts a list only if it is the first one of its name and stands before the
list, and the list is the last one that names it; and a field counts a list if it is the first one of
the name that a later list gives and is a primitive. The warnings are about the other lists, one for
each, in the order of the document. -/
theorem Schema.countFields_of_read {source : String} {loaded : Loaded}
    (h : Schema.read source = .ok loaded) :
    (∃ root, Markup.tree? source = some root ∧
      List.Forall₂ ClassOf (root.children.filter (Node.is .cls)) loaded.schema.registry.classes) ∧
    (∀ c ∈ loaded.schema.registry.classes,
      (∀ (i j : Nat) (f : Field), c.fields[i]? = some f → f.counts? = some j →
        c.fieldIndex? f.name = some i ∧ i < j ∧ j < c.fields.length ∧ c.listAt? j = some f.name ∧
          ∀ k, c.listAt? k = some f.name → k ≤ j) ∧
      ∀ (i j : Nat) (n : String), c.listAt? j = some n → c.countPosition? j n = some i →
        ∃ f k, c.fields[i]? = some f ∧ f.counts? = some k) ∧
    loaded.warnings = loaded.schema.registry.classes.flatMap ClassDef.linkWarnings ∧
    ∀ w ∈ loaded.warnings, w.finding.kind = "UnresolvedCountFieldLink" ∧ w.isError = false := by
  obtain ⟨root, hroot, htree⟩ := Schema.exists_tree_of_read h
  have hwarnings : loaded.warnings = loaded.schema.registry.classes.flatMap ClassDef.linkWarnings :=
    foldlM_keeps warnings_readEntry rfl htree
  refine ⟨⟨root, hroot, Schema.forall₂_classOf_of_readTree htree⟩, fun c hc => ?_, hwarnings, ?_⟩
  · have hlinked := Schema.linked_of_read h c hc
    constructor
    · intro i j f hf hj
      obtain ⟨hij, g, element, text, hg, htype⟩ := hlinked.of_counts? hf hj
      have hlist : c.listAt? j = some f.name :=
        ClassDef.listAt?_eq_some.2 ⟨g, hg, countField?_eq_some.2 ⟨element, text, htype⟩⟩
      obtain ⟨hfirst, hlast⟩ := hlinked.first_and_last hf hj
      refine ⟨hfirst, hij, (List.getElem?_eq_some_iff.1 hg).1, hlist, fun k hk => ?_⟩
      obtain ⟨g', hg', hname⟩ := ClassDef.listAt?_eq_some.1 hk
      exact hlast k g' hg' hname
    · intro i j n hj hi
      obtain ⟨g, hg, hname⟩ := ClassDef.listAt?_eq_some.1 hj
      obtain ⟨element, text, htype⟩ := countField?_eq_some.1 hname
      obtain ⟨hfirst, hij, f, hf, hprimitive⟩ := ClassDef.countPosition?_eq_some hi
      obtain ⟨k, hk⟩ := Option.isSome_iff_exists.1
        (hlinked.counts?_isSome hg htype hfirst hij hf hprimitive)
      exact ⟨f, k, hf, hk⟩
  · intro w hw
    rw [hwarnings] at hw
    obtain ⟨c, -, hw⟩ := List.mem_flatMap.1 hw
    obtain ⟨n, hn⟩ := ClassDef.finding_of_mem_linkWarnings hw
    simp [hn, Diagnostic.isError, Finding.kind, Finding.severity]

theorem Schema.countFields_of_read_sample : ∃ loaded, Schema.read Schema.sample = .ok loaded ∧
    loaded.schema.registry.classes = [Registry.sampleBase, Registry.sampleDerived] ∧
    loaded.warnings = [⟨"B", some "v", .countNotEarlier "n"⟩] := by
  obtain ⟨checked, hcheck, hr⟩ := Schema.check_sample
  obtain ⟨⟨loaded, hread, hschema⟩, -⟩ := Schema.read_of_check hcheck
  obtain ⟨-, -, hwarnings, -⟩ := Schema.countFields_of_read hread
  have hclasses : loaded.schema.registry.classes = Registry.sample.classes := by rw [hschema, hr]
  refine ⟨loaded, hread, hclasses, ?_⟩
  rw [hwarnings, hclasses]
  decide

end WireSchema
