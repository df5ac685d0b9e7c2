import WireSchema.Proofs.Wire.Termination

namespace WireSchema

open Outcome

open Relation (ReflTransGen TransGen)

theorem ClassDef.Valid.ne_fixedList {r : Registry} {d : ClassDef} (h : d.Valid r) {f : Field}
    (hf : f ∈ d.fields) (name : String) (length : Nat) (text : Bool) :
    f.type ≠ .fixedList (.ofClass name) length text := by
  intro htype
  obtain ⟨i, hi⟩ := List.mem_iff_getElem?.1 hf
  have hlist := h.lists i f hi
  simp [Registry.checkList, htype] at hlist

namespace Registry

variable {r : Registry}

def Refers (r : Registry) (name target : String) : Prop :=
  ∃ d, r.find? name = some d ∧
    (d.parent? = some target ∨ ∃ f ∈ d.fields, f.type = .classRef target)

theorem embeds_iff_refers (hvalid : ∀ d ∈ r.classes, d.Valid r) {name target : String} :
    r.Embeds name target ↔ r.Refers name target := by
  constructor
  · rintro ⟨d, hd, hparent | ⟨f, hf, htype | ⟨length, text, htype⟩⟩⟩
    · exact ⟨d, hd, .inl hparent⟩
    · exact ⟨d, hd, .inr ⟨f, hf, htype⟩⟩
    · exact absurd htype ((hvalid d (find?_eq_some.1 hd).1).ne_fixedList hf target length text)
  · rintro ⟨d, hd, hparent | ⟨f, hf, htype⟩⟩
    · exact ⟨d, hd, .inl hparent⟩
    · exact ⟨d, hd, .inr ⟨f, hf, .inl htype⟩⟩

theorem contains_of_refers (hvalid : ∀ d ∈ r.classes, d.Valid r) {name target : String}
    (h : r.Refers name target) : r.contains target := by
  obtain ⟨d, hd, hparent | ⟨f, hf, htype⟩⟩ := h
  · exact (hvalid d (find?_eq_some.1 hd).1).known target hparent
  · have hcheck := (hvalid d (find?_eq_some.1 hd).1).types f hf
    rw [htype] at hcheck
    simpa [checkType, checkClassName] using hcheck

end Registry

namespace Codec

variable {c : Codec} {r : Registry} {make : String → Except CodecError Object} {d : ClassDef}
  {p : Plan}

theorem exists_of_initial_error (hb : Built r d p) {f : FieldPlan} (hf : f ∈ p.fields)
    {error : CodecError} (h : initial make d.name f.name f.init = .error error) :
    ∃ part, (f.layout = .nested part ∨ ∃ n, f.layout = .fixedNested part n) ∧
      make part = .error error := by
  obtain ⟨i, hi⟩ := List.mem_iff_getElem?.1 hf
  obtain ⟨g, -, hlayout, -, hdefault⟩ := hb.field_of_plan hi
  have hscalar {t : Primitive} (hl : f.layout.isList = false) (ht : f.layout.scalarType? = some t) :
      False := by
    rcases init_of_scalarType? hl ht with ⟨-, hinit⟩ | ⟨l, hd, hinit⟩
    · rw [hinit] at h
      cases h
    · obtain ⟨s, hs⟩ := exists_literal_of_default hlayout ht (hdefault.symm.trans hd)
      rw [hinit, initial, literal_eq_ok.2 ⟨s, hs, rfl⟩] at h
      cases h
  rw [FieldPlan.init] at h
  cases hl : f.layout with
  | scalar t | lengthOf t _ =>
      rw [hl] at hscalar
      exact (hscalar rfl rfl).elim
  | nested part =>
      rw [hl] at h
      rcases bind_eq_error.1 h with h | ⟨q, -, h⟩
      · exact ⟨part, .inl rfl, h⟩
      · cases h
  | fixedNested part n =>
      rw [hl] at h
      simp only [initial] at h
      split at h
      · cases h
      · rcases bind_eq_error.1 h with h | ⟨q, -, h⟩
        · exact ⟨part, .inr ⟨n, rfl⟩, h⟩
        · cases h
  | fixedScalars t n | scalarList t count | nestedList part count =>
      rw [hl] at h
      cases h

theorem exists_of_assemble_error (hc : c.plans = Plan.all r) (hd : d ∈ r.classes)
    (hp : c.plan d.name = .ok p) (hmake : ∀ target q, make target = .ok q → c.Conforms target q)
    {error : CodecError} (h : c.assemble make d.name = .error error) :
    ∃ part, c.Makes d.name part ∧ make part = .error error := by
  have hb := built_of_mem hc hd hp
  rw [assemble, hp, ok_bind] at h
  rcases bind_eq_error.1 h with h | ⟨parent, hparent, h⟩
  · cases hname : p.parent with
    | none =>
        rw [hname] at h
        cases h
    | some part =>
        rw [hname, Option.mapM_some] at h
        exact ⟨part, ⟨p, hp, .inl hname⟩, Outcome.map_eq_error.1 h⟩
  rcases bind_eq_error.1 h with h | ⟨fields, hfields, h⟩
  · obtain ⟨f, hf, h⟩ := mapM_eq_error h
    rcases bind_eq_error.1 h with h | ⟨v, -, h⟩
    · obtain ⟨part, hl, hpart⟩ := exists_of_initial_error hb hf h
      exact ⟨part, ⟨p, hp, .inr ⟨f, hf, hl⟩⟩, hpart⟩
    · cases h
  · obtain ⟨o, ho, -⟩ := conforms_assignments hc hd hb.assignments
      (conforms_new hmake hp hparent hfields)
    rw [ho] at h
    cases h

theorem plan_of_selfEmbedding? (hc : c.plans = Plan.all r) (hlinked : r.Linked)
    (hvalid : ∀ d ∈ r.classes, d.Valid r) (hd : d ∈ r.classes) :
    (r.selfEmbedding? d = none → ∃ p, c.plan d.name = .ok p) ∧
      ∀ field, r.selfEmbedding? d = some field →
        c.plan d.name = .error (.plan (.unsupportedLayout d.name field (.embedsItself d.name))) := by
  obtain ⟨hok, hself⟩ := Registry.build_of_valid hlinked hvalid hd
  have hfind : r.find? d.name = some d := Registry.find?_eq_some.2 ⟨hd, rfl⟩
  constructor
  · intro hnone
    obtain ⟨p, hp⟩ := hok hnone
    exact ⟨p, (plan_eq_ok hc).2 ⟨d, hfind, hp⟩⟩
  · intro field hfield
    rw [plan, hc, Plan.all, lookup_named, ← Registry.find?, hfind, Option.map_some, hself field hfield]

theorem exists_conforms_of_refers (hc : c.plans = Plan.all r) {name target : String} {o : Object}
    (ho : c.Conforms name o) (h : r.Refers name target) : ∃ q, c.Conforms target q := by
  obtain ⟨className, parent, fields⟩ := o
  obtain ⟨-, p, hp, hparent, hfields⟩ := conforms_mk.1 ho
  obtain ⟨d, hd, rfl, hb⟩ := built_of_plan hc hp
  obtain ⟨d', hd', hpart⟩ := h
  rw [Registry.find?_eq_some.2 ⟨hd, rfl⟩] at hd'
  cases hd'
  rcases hpart with hname | ⟨f, hf, htype⟩
  · rw [hb.parent, hname] at hparent
    cases parent with
    | none => cases hparent
    | some q => exact ⟨q, hparent⟩
  · obtain ⟨i, hi⟩ := List.mem_iff_getElem?.1 hf
    obtain ⟨l, hl, hplan⟩ := hb.field_of_class hi
    obtain ⟨e, -, -, hfits⟩ := exists_right_of_mem hfields (List.mem_of_getElem? hplan)
    rw [htype] at hl
    cases hl with
    | nested known =>
        obtain ⟨q, _, -, ⟨⟩, hq⟩ := (hfits.element rfl).exists_object rfl
        exact ⟨q, hq⟩

theorem not_embeds_of_refers (hc : c.plans = Plan.all r) {name target : String} {o : Object}
    (ho : c.Conforms name o) (h : ReflTransGen r.Refers name target) :
    ¬TransGen r.Embeds target target := by
  obtain ⟨q, hq⟩ : ∃ q, c.Conforms target q := by
    induction h with
    | refl => exact ⟨o, ho⟩
    | tail _ hstep ih =>
        obtain ⟨q, hq⟩ := ih
        exact exists_conforms_of_refers hc hq hstep
  obtain ⟨p, hp⟩ := hq.exists_plan
  exact not_transGen_embeds hc hp

theorem instantiate_cases (hc : c.plans = Plan.all r) (hlinked : r.Linked)
    (hvalid : ∀ d ∈ r.classes, d.Valid r) {name : String} (hname : r.contains name) :
    (∃ o, c.instantiate name = .ok o) ∨ ∃ part field, ReflTransGen r.Refers name part ∧
      TransGen r.Embeds part part ∧ c.instantiate name =
        .error (.plan (.unsupportedLayout part field (.embedsItself part))) := by
  -- along the classes of the parts, which are not followed forever
  induction acc_makes hc (makeable_length hc name) with
  | intro name _ ih =>
      obtain ⟨d, hd⟩ := Registry.contains_iff.1 hname
      obtain ⟨hmem, rfl⟩ := Registry.find?_eq_some.1 hd
      obtain ⟨hplan, herror⟩ := plan_of_selfEmbedding? hc hlinked hvalid hmem
      cases hself : r.selfEmbedding? d with
      | some field =>
          refine .inr ⟨d.name, field, .refl, (Registry.selfEmbedding?_isSome hmem).1 (by simp [hself]), ?_⟩
          rw [instantiate_eq_assemble hc, assemble, herror field hself]
          rfl
      | none =>
          obtain ⟨p, hp⟩ := hplan hself
          cases hresult : c.instantiate d.name with
          | ok o => exact .inl ⟨o, rfl⟩
          | error error =>
              rw [instantiate_eq_assemble hc] at hresult
              obtain ⟨target, hmakes, htarget⟩ := exists_of_assemble_error hc hmem hp
                (fun _ _ => conforms_of_instantiate hc) hresult
              have hrefers : r.Refers d.name target :=
                (Registry.embeds_iff_refers hvalid).1 (embeds_of_makes hc hmakes)
              rcases ih target hmakes (Registry.contains_of_refers hvalid hrefers) with
                ⟨q, hq⟩ | ⟨part, field, hpart, hself, he⟩
              · rw [hq] at htarget
                cases htarget
              · rw [he] at htarget
                cases htarget
                exact .inr ⟨part, field, hpart.head hrefers, hself, rfl⟩

end Codec

end WireSchema
