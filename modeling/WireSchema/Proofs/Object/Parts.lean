import Mathlib.Data.List.Forall2
import WireSchema.Object.Basic

namespace WireSchema

def Value.parts : Value → List Object
  | .scalar _ => []
  | .list vs => vs.filterMap Value.object?
  | .object q => [q]

namespace Object

def parts (o : Object) : List Object :=
  o.parent.toList ++ o.fields.flatMap (·.2.parts)

/-- `P` holds of an object and of all objects inside it. -/
inductive Every (P : Object → Prop) : Object → Prop
  | intro {o : Object} (here : P o) (parts : ∀ q ∈ o.parts, Every P q) : Every P o

variable {P Q : Object → Prop} {o q : Object}

theorem Every.here (h : o.Every P) : P o := by
  cases h
  assumption

theorem Every.parts (h : o.Every P) (hq : q ∈ o.parts) : q.Every P := by
  cases h with
  | intro _ parts => exact parts q hq

theorem mem_parts : q ∈ o.parts ↔ o.parent = some q ∨ ∃ e ∈ o.fields, q ∈ e.2.parts := by
  simp [Object.parts]

theorem Every.parent (h : o.Every P) (hq : o.parent = some q) : q.Every P :=
  h.parts (mem_parts.2 (.inl hq))

theorem Every.field (h : o.Every P) {e : String × Value} (he : e ∈ o.fields)
    (hq : q ∈ e.2.parts) : q.Every P :=
  h.parts (mem_parts.2 (.inr ⟨e, he, hq⟩))

theorem lookup_append_cons {n : String} {v : Value} {pre post : List (String × Value)}
    (hn : n ∉ pre.map Prod.fst) : (pre ++ (n, v) :: post).lookup n = some v := by
  refine List.lookup_eq_some_iff.2 ⟨pre, post, rfl, ?_⟩
  rintro ⟨m, w⟩ hm
  have hne : n ≠ m := by
    rintro rfl
    exact hn (List.mem_map.2 ⟨_, hm, rfl⟩)
  simpa using hne

theorem exists_of_lookup {n : String} {v : Value} {fs : List (String × Value)}
    (h : fs.lookup n = some v) : ∃ pre post, fs = pre ++ (n, v) :: post ∧ n ∉ pre.map Prod.fst := by
  obtain ⟨pre, post, rfl, hne⟩ := List.lookup_eq_some_iff.1 h
  refine ⟨pre, post, rfl, ?_⟩
  rintro hmem
  obtain ⟨e, he, rfl⟩ := List.mem_map.1 hmem
  simpa using hne e he

theorem Every.own (h : o.Every P) {n : String} {v : Value} (hv : o.own? n = some v)
    (hq : q ∈ v.parts) : q.Every P := by
  obtain ⟨pre, post, hfields, -⟩ := exists_of_lookup hv
  exact h.field (e := (n, v)) (by simp [hfields]) hq

theorem height_lt_of_own? {n : String} {v : Value} (hv : o.own? n = some v) (hq : q ∈ v.parts) :
    q.height < o.height := by
  cases v with
  | scalar s => cases hq
  | object q' =>
      cases List.mem_singleton.1 hq
      exact own_height_lt hv
  | list vs =>
      obtain ⟨v, hmem, hq⟩ := List.mem_filterMap.1 hq
      have hlt := item_height_lt hv hmem
      cases v with
      | object q' => cases hq; exact hlt
      | scalar s => cases hq
      | list ws => cases hq

theorem height_le_of_mem {e : String × Value} {fs : List (String × Value)} (h : e ∈ fs) :
    e.2.height ≤ fieldHeights fs := by
  induction fs with
  | nil => cases h
  | cons e' fs ih =>
      obtain ⟨n, v⟩ := e'
      simp only [fieldHeights]
      rcases List.mem_cons.1 h with rfl | h
      · exact Nat.le_max_left _ _
      · exact Nat.le_trans (ih h) (Nat.le_max_right _ _)

theorem height_lt_of_mem_parts (hq : q ∈ o.parts) : q.height < o.height := by
  rcases mem_parts.1 hq with hq | ⟨e, he, hq⟩
  · exact parent_height_lt hq
  · have hle : q.height ≤ e.2.height := by
      generalize e.2 = v at hq
      cases v with
      | scalar s => cases hq
      | object q' =>
          cases List.mem_singleton.1 hq
          exact Nat.le_refl _
      | list vs =>
          obtain ⟨w, hw, hq⟩ := List.mem_filterMap.1 hq
          have hheight := Value.height_le_heights hw
          cases w with
          | object q' => cases hq; exact hheight
          | scalar s => cases hq
          | list ws => cases hq
    obtain ⟨className, parent, fs⟩ := o
    have hfield := height_le_of_mem he
    rw [height]
    simp only [fields] at hfield
    omega

theorem updateNamed?_append_cons {n : String} {v : Value} {pre post : List (String × Value)}
    (change : Value → Option Value) (hn : n ∉ pre.map Prod.fst) :
    updateNamed? n change (pre ++ (n, v) :: post) =
      (change v).map fun w => pre ++ (n, w) :: post := by
  induction pre with
  | nil => simp [updateNamed?]
  | cons e pre ih =>
      obtain ⟨m, w⟩ := e
      have hne : ¬m = n := by
        rintro rfl
        exact hn (by simp)
      have hpre : n ∉ pre.map Prod.fst := fun h => hn (by simp [h])
      simp only [List.cons_append, updateNamed?, hne, if_false, ih hpre, Option.map_map]
      rfl

theorem setOwn?_append_cons {className n : String} {parent : Option Object} {v w : Value}
    {pre post : List (String × Value)} (hn : n ∉ pre.map Prod.fst) :
    (mk className parent (pre ++ (n, v) :: post)).setOwn? n w =
      some (mk className parent (pre ++ (n, w) :: post)) := by
  simp only [setOwn?, updateOwn?, fields, updateNamed?_append_cons _ hn]
  rfl

theorem lookup_of_updateNamed? {n : String} {v : Value} {fs gs : List (String × Value)}
    (h : updateNamed? n (fun _ => some v) fs = some gs) (m : String) :
    gs.lookup m = if m = n then some v else fs.lookup m := by
  induction fs generalizing gs with
  | nil => cases h
  | cons e fs ih =>
      obtain ⟨k, w⟩ := e
      rw [updateNamed?] at h
      split at h
      next hk =>
        cases h
        by_cases hm : m = n
        · simp [hk, hm]
        · simp [List.lookup_cons, hk, hm, beq_eq_false_iff_ne.2 hm]
      next hk =>
        obtain ⟨hs, hhs, rfl⟩ := Option.map_eq_some_iff.1 h
        rw [List.lookup_cons, List.lookup_cons, ih hhs]
        by_cases hm : m = n
        · subst hm
          have hne : (m == k) = false := beq_eq_false_iff_ne.2 (Ne.symm hk)
          simp [hne]
        · simp [hm]

theorem own?_of_setOwn? {n : String} {v : Value} {o' : Object} (h : o.setOwn? n v = some o')
    (m : String) : o'.own? m = if m = n then some v else o.own? m := by
  obtain ⟨fs, hfs, rfl⟩ := Option.map_eq_some_iff.1 h
  exact lookup_of_updateNamed? hfs m

theorem parent_of_setOwn? {n : String} {v : Value} {o' : Object} (h : o.setOwn? n v = some o') :
    o'.parent = o.parent := by
  obtain ⟨fs, -, rfl⟩ := Option.map_eq_some_iff.1 h
  rfl

end Object

end WireSchema
