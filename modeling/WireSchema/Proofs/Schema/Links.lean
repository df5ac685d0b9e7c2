import WireSchema.Proofs.Schema.Reading

namespace WireSchema

open Reader

open Markup (Node)

def Reader.relink (n : String) (k : Nat) (fs : List Field) : List Field :=
  (linkCount? n k fs).getD fs

/-- Fields as reading adds them. Only a variable list changes a field that is there before it. -/
inductive LinkedFields : List Field → Prop
  | nil : LinkedFields []
  | plain {fs : List Field} {f : Field} (before : LinkedFields fs)
      (notList : ∀ element n text, f.type ≠ .variableList element n text)
      (unlinked : f.counts? = none) : LinkedFields (fs ++ [f])
  | list {fs : List Field} {f : Field} {element : ElementType} {n : String} {text : Bool}
      (before : LinkedFields fs) (isList : f.type = .variableList element n text) :
      LinkedFields (relink n fs.length fs ++ [f])

def Registry.Linked (r : Registry) : Prop :=
  ∀ c ∈ r.classes, LinkedFields c.fields

namespace Reader

open Outcome

theorem counts?_of_typeOf {n : Node} {f : Field} (h : TypeOf n f.type) : f.counts? = none := by
  rw [Field.counts?]
  generalize f.type = type at h
  cases h <;> rfl

theorem linked_addField {d : Declared} (hd : LinkedFields d.cls.fields) {f : Field}
    (hcounts : f.counts? = none) : LinkedFields (d.addField f).cls.fields := by
  rw [Declared.addField]
  cases hcount : countField? f.type with
  | none =>
      refine .plain hd (fun element n text htype => ?_) hcounts
      rw [htype] at hcount
      cases hcount
  | some n =>
      obtain ⟨element, text, htype⟩ := countField?_eq_some.1 hcount
      have hlinked := LinkedFields.list hd htype
      rw [relink] at hlinked
      rw [Declared.link]
      cases hlink : linkCount? n d.cls.fields.length d.cls.fields with
      | none => simpa [hlink] using hlinked
      | some fields => simpa [hlink] using hlinked

theorem linked_readMember {d d' : Declared} {n : Node} (hd : LinkedFields d.cls.fields)
    (h : readMember d n = .ok d') : LinkedFields d'.cls.fields := by
  rw [readMember] at h
  split at h
  next =>
    obtain ⟨f, hf, rfl⟩ := map_eq_ok.1 h
    obtain ⟨m, -, htype⟩ := (fieldOf_readField hf).type
    exact linked_addField hd (counts?_of_typeOf htype)
  next =>
    obtain ⟨value, -, h⟩ := bind_eq_ok.1 h
    cases h
    exact hd
  next => rwa [eq_of_misplaced h]

theorem linked_readEntry {loaded loaded' : Loaded} {n : Node}
    (hloaded : loaded.schema.registry.Linked) (h : readEntry loaded n = .ok loaded') :
    loaded'.schema.registry.Linked := by
  simp only [readEntry] at h
  split at h
  next =>
    obtain ⟨d, hd, h⟩ := bind_eq_ok.1 h
    obtain ⟨c, hc, hd⟩ := bind_eq_ok.1 hd
    have hfields : LinkedFields d.cls.fields := by
      refine foldlM_keeps linked_readMember ?_ hd
      rw [fields_of_beginClass hc]
      exact .nil
    split at h
    next => cases h
    next registry hregistry =>
      cases h
      intro c hc
      rw [classes_of_insert? hregistry] at hc
      rcases List.mem_append.1 hc with hc | hc
      · exact hloaded c hc
      · rwa [List.mem_singleton.1 hc]
  next =>
    cases h
    exact hloaded

end Reader

theorem Schema.linked_of_read {source : String} {loaded : Loaded}
    (h : Schema.read source = .ok loaded) : loaded.schema.registry.Linked := by
  obtain ⟨root, -, htree⟩ := Schema.exists_tree_of_read h
  have hempty : Registry.Linked .empty := fun c hc => nomatch hc
  exact Outcome.foldlM_keeps Reader.linked_readEntry hempty htree

namespace Reader

theorem linkCount?_eq_none {n : String} {k : Nat} {fs : List Field}
    (h : linkCount? n k fs = none) {i : Nat} {f : Field}
    (hi : fs.findIdx? (·.name == n) = some i) (hf : fs[i]? = some f) : f.typeName? = none := by
  induction fs generalizing i with
  | nil => simp at hi
  | cons g fs ih =>
      rw [linkCount?] at h
      rw [List.findIdx?_cons] at hi
      split at h
      next hname =>
        have hi : i = 0 := by simpa [hname, eq_comm] using hi
        subst hi
        cases hf
        split at h
        next => cases h
        next htype =>
          rw [Field.typeName?]
          split
          next t d k' hp => exact absurd hp (htype t d k')
          next => rfl
      next hname =>
        simp only [beq_iff_eq, hname, if_false, Option.map_eq_some_iff] at hi
        obtain ⟨i, hi, rfl⟩ := hi
        exact ih (by simpa using h) hi hf

theorem map_name_relink (n : String) (k : Nat) (fs : List Field) :
    (relink n k fs).map Field.name = fs.map Field.name := by
  rw [relink]
  cases h : linkCount? n k fs with
  | none => rfl
  | some gs =>
      obtain ⟨i, f, typeName, default, counts, -, hf, -, -, rfl⟩ := linkCount?_eq_some h
      apply List.ext_getElem?
      intro m
      rw [Option.getD_some, List.getElem?_map, List.getElem?_map, List.getElem?_set]
      split
      next hm =>
        subst hm
        obtain ⟨hi, rfl⟩ := List.getElem?_eq_some_iff.1 hf
        simp [hi]
      next => rfl

theorem getElem?_relink {n : String} {k i : Nat} {fs : List Field} {g : Field}
    (h : (relink n k fs)[i]? = some g) : ∃ f, fs[i]? = some f ∧ (g = f ∨
      f.name = n ∧ ∃ typeName default counts, f.type = .primitive typeName default counts ∧
        g = { f with type := .primitive typeName default (some k) }) := by
  rw [relink] at h
  cases hlink : linkCount? n k fs with
  | none => exact ⟨g, by simpa [hlink] using h, .inl rfl⟩
  | some gs =>
      obtain ⟨m, f, typeName, default, counts, -, hf, hn, htype, rfl⟩ := linkCount?_eq_some hlink
      rw [hlink, Option.getD_some, List.getElem?_set] at h
      split at h
      next hm =>
        subst hm
        split at h
        · cases h
          exact ⟨f, hf, .inr ⟨hn, typeName, default, counts, htype, rfl⟩⟩
        · cases h
      next => exact ⟨g, h, .inl rfl⟩

theorem length_relink (n : String) (k : Nat) (fs : List Field) :
    (relink n k fs).length = fs.length := by
  simpa using congrArg List.length (map_name_relink n k fs)

theorem findIdx?_relink (m n : String) (k : Nat) (fs : List Field) :
    (relink n k fs).findIdx? (·.name == m) = fs.findIdx? (·.name == m) := by
  have h (gs : List Field) : gs.findIdx? (·.name == m) = (gs.map Field.name).findIdx? (· == m) := by
    simp [List.findIdx?_map, Function.comp_def]
  rw [h, h fs, map_name_relink]

theorem getElem?_relink_list {n m : String} {k j : Nat} {fs : List Field} {g : Field}
    {element : ElementType} {text : Bool} (hg : fs[j]? = some g)
    (htype : g.type = .variableList element m text) : (relink n k fs)[j]? = some g := by
  have hj : j < (relink n k fs).length := by
    rw [length_relink]
    exact (List.getElem?_eq_some_iff.1 hg).1
  obtain ⟨f, hf, h | ⟨-, typeName, default, counts, hprimitive, -⟩⟩ :=
    getElem?_relink (List.getElem?_eq_getElem hj)
  · rw [List.getElem?_eq_getElem hj, h, ← hf, hg]
  · rw [hg] at hf
    cases hf
    rw [htype] at hprimitive
    cases hprimitive

end Reader

namespace LinkedFields

variable {fs : List Field}

theorem of_counts? (h : LinkedFields fs) {i j : Nat} {f : Field} (hf : fs[i]? = some f)
    (hj : f.counts? = some j) :
    i < j ∧ ∃ g element text, fs[j]? = some g ∧ g.type = .variableList element f.name text := by
  induction h generalizing i j f with
  | nil => simp at hf
  | @plain fs new before notList unlinked ih =>
      rw [List.getElem?_append] at hf
      split at hf
      next hi =>
        obtain ⟨hij, g, element, text, hg, htype⟩ := ih hf hj
        refine ⟨hij, g, element, text, ?_, htype⟩
        rw [List.getElem?_append_left (List.getElem?_eq_some_iff.1 hg).1, hg]
      next hi =>
        obtain rfl : f = new := by simpa using List.mem_of_getElem? hf
        simp [unlinked] at hj
  | @list fs new element n text before isList ih =>
      rw [List.getElem?_append] at hf
      split at hf
      next hi =>
        rcases getElem?_relink hf with ⟨f', hf', rfl | ⟨hn, typeName, default, counts, -, rfl⟩⟩
        · obtain ⟨hij, g, element', text', hg, htype⟩ := ih hf' hj
          refine ⟨hij, g, element', text', ?_, htype⟩
          rw [List.getElem?_append_left, getElem?_relink_list hg htype]
          rw [length_relink]
          exact (List.getElem?_eq_some_iff.1 hg).1
        · -- the field is the one that the new list names
          obtain rfl : fs.length = j := by simpa [Field.counts?] using hj
          rw [length_relink] at hi
          refine ⟨hi, new, element, text, ?_, by rw [isList, ← hn]⟩
          rw [List.getElem?_append_right (Nat.le_of_eq (length_relink ..)), length_relink]
          simp
      next hi =>
        obtain rfl : f = new := by simpa using List.mem_of_getElem? hf
        simp [Field.counts?, isList] at hj

theorem findIdx?_of_append {α : Type} {p : α → Bool} {xs ys : List α} {i : Nat}
    (h : (xs ++ ys).findIdx? p = some i) (hi : i < xs.length) : xs.findIdx? p = some i := by
  rw [List.findIdx?_append] at h
  cases hx : xs.findIdx? p with
  | some k => simpa [hx] using h
  | none =>
      obtain ⟨k, -, rfl⟩ : ∃ k, ys.findIdx? p = some k ∧ k + xs.length = i := by
        simpa [hx] using h
      omega

/-- A primitive field counts a list if it is the first of the name that a later list has for its
count field. Which list it counts is not said: of several the last one. -/
theorem counts?_isSome (h : LinkedFields fs) {i j : Nat} {f g : Field} {element : ElementType}
    {n : String} {text : Bool} (hg : fs[j]? = some g) (hlist : g.type = .variableList element n text)
    (hi : fs.findIdx? (·.name == n) = some i) (hij : i < j) (hf : fs[i]? = some f)
    (hprimitive : f.typeName?.isSome) : f.counts?.isSome := by
  induction h generalizing i j f with
  | nil => simp at hf
  | @plain fs new before notList unlinked ih =>
      have hj : j < fs.length := by
        by_contra hj
        rw [List.getElem?_append_right (by omega)] at hg
        obtain rfl : g = new := by simpa using List.mem_of_getElem? hg
        exact notList _ _ _ hlist
      rw [List.getElem?_append_left hj] at hg
      rw [List.getElem?_append_left (by omega)] at hf
      exact ih hg (findIdx?_of_append hi (by omega)) hij hf hprimitive
  | @list fs new element' n' text' before isList ih =>
      have hjlen : j < fs.length + 1 := by
        simpa [length_relink] using (List.getElem?_eq_some_iff.1 hg).1
      have hilen : i < (relink n' fs.length fs).length := by
        rw [length_relink]
        omega
      rw [List.getElem?_append_left hilen] at hf
      have hidx := findIdx?_of_append hi hilen
      rw [findIdx?_relink] at hidx
      by_cases hj : j < fs.length
      · rw [List.getElem?_append_left (by rwa [length_relink])] at hg
        rcases getElem?_relink hg with ⟨g', hg', rfl | ⟨-, typeName, default, counts, -, rfl⟩⟩
        · rcases getElem?_relink hf with ⟨f', hf', rfl | ⟨-, typeName, default, counts, -, rfl⟩⟩
          · exact ih hg' hidx hij hf' hprimitive
          · simp [Field.counts?]
        · simp at hlist
      · -- the list is the one just added, and its count field is the one that was linked
        obtain rfl : fs.length = j := by omega
        obtain rfl : g = new := by
          rw [List.getElem?_append_right (Nat.le_of_eq (length_relink ..))] at hg
          simpa using List.mem_of_getElem? hg
        obtain rfl : n' = n := by
          rw [isList] at hlist
          cases hlist
          rfl
        cases hlink : linkCount? n' fs.length fs with
        | none =>
            rw [relink, hlink] at hf
            simp [linkCount?_eq_none hlink hidx hf] at hprimitive
        | some gs =>
            obtain ⟨k, f', typeName, default, counts, hk, -, -, -, rfl⟩ := linkCount?_eq_some hlink
            obtain rfl : k = i := by
              rw [hk] at hidx
              exact Option.some.inj hidx
            rw [relink, hlink, Option.getD_some, List.getElem?_set_self] at hf
            · cases hf
              rfl
            · rwa [length_relink] at hilen

end LinkedFields

end WireSchema
