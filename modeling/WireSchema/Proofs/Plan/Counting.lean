import WireSchema.Proofs.Plan.Agreement

namespace WireSchema

namespace Plan

structure Sound (p : Plan) : Prop where
  names : (p.fields.map FieldPlan.name).Nodup
  counted : ∀ {pre post f s}, p.fields = pre ++ f :: post → f.layout.count? = some s →
    s.depth = 0 → ∃ g ∈ pre, g.name = s.field ∧ ∃ t, g.layout = .lengthOf t f.name
  counts : ∀ {f t list}, f ∈ p.fields → f.layout = .lengthOf t list → ∃ g ∈ p.fields,
    g.name = list ∧ ∃ s, g.layout.count? = some s ∧ s.depth = 0 ∧ s.field = f.name

end Plan

theorem HasLayout.counted {r : Registry} {c : ClassDef} {i : Nat} {type : FieldType} {l : Layout}
    {s : CountSource} (h : HasLayout r c i type l) (hs : l.count? = some s) :
    ∃ element n text, type = .variableList element n text ∧ CountedBy r c i n s := by
  cases h with
  | scalarList ht hcounted => cases hs; exact ⟨_, _, _, rfl, hcounted⟩
  | nestedList hknown hcounted => cases hs; exact ⟨_, _, _, rfl, hcounted⟩
  | _ => cases hs

theorem HasLayout.exists_count {r : Registry} {c : ClassDef} {i : Nat} {element : ElementType}
    {n : String} {text : Bool} {l : Layout} (h : HasLayout r c i (.variableList element n text) l) :
    ∃ s, l.count? = some s ∧ CountedBy r c i n s := by
  cases h with
  | scalarList ht hcounted => exact ⟨_, rfl, hcounted⟩
  | nestedList hknown hcounted => exact ⟨_, rfl, hcounted⟩

theorem HasLayout.linked {r : Registry} {c : ClassDef} {i k : Nat} {f : Field} {l : Layout}
    (h : HasLayout r c i f.type l) (hk : f.counts? = some k) :
    ∃ t list, c.fields[k]? = some list ∧ l = .lengthOf t list.name := by
  rw [Field.counts?] at hk
  generalize f.type = type at h hk
  cases h with
  | lengthOf ht hvalid hlinked hlist => cases hk; exact ⟨_, _, hlinked, rfl⟩
  | _ => cases hk

theorem HasLayout.counts?_of_lengthOf {r : Registry} {c : ClassDef} {i : Nat} {f : Field}
    {t : Primitive} {name : String} (h : HasLayout r c i f.type (.lengthOf t name)) :
    ∃ k list, f.counts? = some k ∧ c.fields[k]? = some list ∧ list.name = name := by
  rw [Field.counts?]
  generalize f.type = type at h
  cases h with
  | lengthOf ht hvalid hlinked hlist => exact ⟨_, _, rfl, hlinked, rfl⟩

theorem ClassDef.field?_of_nodup {c : ClassDef} (h : (c.fields.map Field.name).Nodup) {f : Field}
    (hf : f ∈ c.fields) : c.field? f.name = some f := by
  cases hfind : c.field? f.name with
  | none => simpa using List.find?_eq_none.1 hfind f hf
  | some g =>
      have hg := List.mem_of_find?_eq_some hfind
      rw [List.inj_on_of_nodup_map h hg hf (name_of_field? hfind)]

namespace Built

variable {r : Registry} {c : ClassDef} {p : Plan}

theorem counts_of_counted (hlinked : LinkedFields c.fields) (hvalid : c.Valid r) {i : Nat}
    {list : Field} {element : ElementType} {n : String} {text : Bool} {s : CountSource}
    (hlist : c.fields[i]? = some list) (htype : list.type = .variableList element n text)
    (hcounted : CountedBy r c i n s) (hdepth : s.depth = 0) :
    ∃ j f, j < i ∧ c.fields[j]? = some f ∧ f.name = s.field ∧ f.counts? = some i := by
  obtain ⟨found, t, hfound, hafter, hinteger, rfl⟩ := hcounted
  have hf := Registry.field?_of_resolve? hfound hdepth
  obtain ⟨j, hindex, hj⟩ := ClassDef.fieldIndex?_of_field? hf
  obtain ⟨hprimitive, -⟩ := Option.filter_eq_some_iff.1 hinteger
  obtain ⟨typeName, htypeName, -⟩ := Option.bind_eq_some_iff.1 hprimitive
  have hji : j < i := by
    have hle : ¬i < j := fun h => hafter ⟨hdepth, by simp [hindex, h]⟩
    have hne : j ≠ i := by
      rintro rfl
      rw [hlist] at hj
      cases hj
      simp [Field.typeName?, htype] at htypeName
    omega
  obtain ⟨k, hk⟩ := Option.isSome_iff_exists.1
    (hlinked.counts?_isSome hlist htype hindex hji hj (by simp [htypeName]))
  have hcheck := hvalid.lists i list hlist
  simp only [Registry.checkList, htype] at hcheck
  obtain rfl := (Registry.checkCount_eq_nil_iff.1 hcheck).2 _ k hf hk
  exact ⟨j, found.field, hji, hj, ClassDef.name_of_field? hf, hk⟩

theorem sound (hlinked : LinkedFields c.fields) (hvalid : c.Valid r) (hb : Built r c p) :
    p.Sound := by
  refine ⟨hb.map_name ▸ hvalid.names, ?_, ?_⟩
  · intro pre post f s hp hs hdepth
    have hi : p.fields[pre.length]? = some f := by simp [hp]
    obtain ⟨list, hlist, hlayout, hname, -⟩ := hb.field_of_plan hi
    obtain ⟨element, n, text, htype, hcounted⟩ := hlayout.counted hs
    obtain ⟨j, g, hj, hg, hgname, hcounts⟩ :=
      counts_of_counted hlinked hvalid hlist htype hcounted hdepth
    obtain ⟨l, hl, hplan⟩ := hb.field_of_class hg
    obtain ⟨t, list', hlist', rfl⟩ := hl.linked hcounts
    rw [hlist] at hlist'
    cases hlist'
    rw [hp, List.getElem?_append_left hj] at hplan
    exact ⟨_, List.mem_of_getElem? hplan, hgname, t, by rw [hname]⟩
  · intro f t list hf hl
    obtain ⟨i, hi⟩ := List.mem_iff_getElem?.1 hf
    obtain ⟨g, hg, hlayout, hname, -⟩ := hb.field_of_plan hi
    rw [hl] at hlayout
    obtain ⟨k, listField, hcounts, hlist, rfl⟩ := hlayout.counts?_of_lengthOf
    obtain ⟨-, listField', element, text, hlist', htype⟩ := hlinked.of_counts? hg hcounts
    rw [hlist] at hlist'
    cases hlist'
    obtain ⟨l, hl', hplan⟩ := hb.field_of_class hlist
    rw [htype] at hl'
    obtain ⟨s, hs, found, t', hfound, -, -, rfl⟩ := hl'.exists_count
    have hown := ClassDef.field?_of_nodup hvalid.names (List.mem_of_getElem? hg)
    rw [Registry.resolve?_of_field? hown] at hfound
    cases hfound
    exact ⟨_, List.mem_of_getElem? hplan, rfl, _, hs, rfl, hname.symm⟩

end Built

end WireSchema
