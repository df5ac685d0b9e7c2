import WireSchema.Proofs.Object.Scalar
import WireSchema.Proofs.Wire.Conformance

namespace WireSchema

open Outcome

namespace Codec

variable {c : Codec} {r : Registry}

theorem literal_eq_ok {className field : String} {t : Primitive} {l : Literal} {v : Value} :
    literal className field t l = .ok v ↔ ∃ s, Scalar.ofLiteral? t l = some s ∧ v = .scalar s := by
  rw [literal]
  cases Scalar.ofLiteral? t l <;> simp [eq_comm (a := v)]

section Fields

variable {R : FieldPlan → Value → Prop} {fs : List FieldPlan} {es : List (String × Value)}
  {n : String} {f : FieldPlan}

theorem lookup_of_forall₂ (h : List.Forall₂ (fun f e => e.1 = f.name ∧ R f e.2) fs es)
    (hf : fs.find? (·.name == n) = some f) : ∃ v, es.lookup n = some v ∧ R f v := by
  induction h with
  | nil => simp at hf
  | @cons g e fs es hge _ ih =>
      obtain ⟨m, v⟩ := e
      obtain ⟨rfl, hR⟩ := hge
      by_cases hg : g.name = n
      · subst hg
        simp only [List.find?_cons, BEq.rfl] at hf
        cases hf
        exact ⟨v, by simp, hR⟩
      · obtain ⟨w, hw, hR⟩ := ih (by simpa [List.find?_cons, hg] using hf)
        have hne : (n == g.name) = false := by simpa using Ne.symm hg
        exact ⟨w, by simpa [List.lookup_cons, hne] using hw, hR⟩

theorem updateNamed?_of_forall₂ {w : Value}
    (h : List.Forall₂ (fun f e => e.1 = f.name ∧ R f e.2) fs es)
    (hf : fs.find? (·.name == n) = some f) (hw : R f w) :
    ∃ es', Object.updateNamed? n (fun _ => some w) es = some es' ∧
      List.Forall₂ (fun f e => e.1 = f.name ∧ R f e.2) fs es' := by
  induction h with
  | nil => simp at hf
  | @cons g e fs es hge hrest ih =>
      obtain ⟨m, v⟩ := e
      obtain ⟨rfl, hR⟩ := hge
      by_cases hg : g.name = n
      · subst hg
        simp only [List.find?_cons, BEq.rfl] at hf
        cases hf
        exact ⟨(f.name, w) :: es, by simp [Object.updateNamed?], .cons ⟨rfl, hw⟩ hrest⟩
      · obtain ⟨es', hes', hrest'⟩ := ih (by simpa [List.find?_cons, hg] using hf)
        exact ⟨(g.name, v) :: es', by simp [Object.updateNamed?, hg, hes'], .cons ⟨rfl, hR⟩ hrest'⟩

end Fields

section Assign

theorem conforms_withParent {name target : String} {o q q' : Object} (ho : c.Conforms name o)
    (hq : o.parent = some q) (hname : q.className = target) (hq' : c.Conforms target q') :
    c.Conforms name (o.withParent q') := by
  obtain ⟨className, parent, fields⟩ := o
  cases hq
  obtain ⟨hclass, p, hp, hparent, hfields⟩ := conforms_mk.1 ho
  refine conforms_mk.2 ⟨hclass, p, hp, ?_, hfields⟩
  rw [fitsParent_iff] at hparent ⊢
  refine ⟨?_, ?_⟩
  · simpa [hq'.1, hname] using hparent.1
  · rintro _ ⟨⟩
    exact hq'.2

/-- A change of the part that an object inherits from an ancestor of its class. -/
theorem conforms_updateAtDepth (hc : c.plans = Plan.all r) {change : Object → Option Object}
    {depth : Nat} {d a : ClassDef} {o : Object} (hd : d ∈ r.classes)
    (ha : r.ancestor? depth d = some a)
    (hchange : ∀ q, c.Conforms a.name q → ∃ q', change q = some q' ∧ c.Conforms a.name q')
    (ho : c.Conforms d.name o) :
    ∃ o', o.updateAtDepth? change depth = some o' ∧ c.Conforms d.name o' := by
  induction depth generalizing d o with
  | zero =>
      cases ha
      exact hchange o ho
  | succ depth ih =>
      obtain ⟨b, hb, ha⟩ := Option.bind_eq_some_iff.1 ha
      obtain ⟨name, hname, hb⟩ := Option.bind_eq_some_iff.1 hb
      obtain ⟨hmem, rfl⟩ := Registry.find?_eq_some.1 hb
      obtain ⟨className, parent, fields⟩ := o
      obtain ⟨-, p, hp, hparent, -⟩ := conforms_mk.1 ho
      rw [(built_of_mem hc hd hp).parent, hname] at hparent
      cases parent with
      | none => cases hparent
      | some q =>
          obtain ⟨q', hq', hconforms⟩ := ih hmem ha hparent
          refine ⟨_, ?_, conforms_withParent ho rfl hparent.1 hconforms⟩
          simp [Object.updateAtDepth?, Object.parent, hq']

theorem conforms_setOwn {name n : String} {o : Object} {p : Plan} {f : FieldPlan} {v : Value}
    (ho : c.Conforms name o) (hp : c.plan name = .ok p) (hf : p.field? n = some f)
    (hv : c.Fits f.layout v) : ∃ o', o.setOwn? n v = some o' ∧ c.Conforms name o' := by
  obtain ⟨className, parent, fields⟩ := o
  obtain ⟨rfl, p', hp', hparent, hfields⟩ := conforms_mk.1 ho
  rw [hp] at hp'
  cases hp'
  obtain ⟨fields', hupdate, hfields'⟩ :=
    updateNamed?_of_forall₂ (R := fun f v => c.Fits f.layout v) hfields hf hv
  refine ⟨.mk className parent fields', ?_, conforms_mk.2 ⟨rfl, p, hp, hparent, hfields'⟩⟩
  simp only [Object.setOwn?, Object.updateOwn?, Object.fields, hupdate]
  rfl

theorem scalarType?_of_layout {d : ClassDef} {i : Nat} {f : Field} {l : Layout} {t : Primitive}
    (hl : HasLayout r d i f.type l) (ht : f.primitive? = some t) :
    l.isList = false ∧ l.scalarType? = some t := by
  obtain ⟨typeName, htype, ht⟩ := Option.bind_eq_some_iff.1 ht
  generalize hft : f.type = type at hl
  cases hl with
  | scalar h _ => simp_all [Field.typeName?, Layout.isList, Layout.isFixedList,
      Layout.isVariableList, Layout.scalarType?]
  | lengthOf h _ _ _ => simp_all [Field.typeName?, Layout.isList, Layout.isFixedList,
      Layout.isVariableList, Layout.scalarType?]
  | _ => simp_all [Field.typeName?]

theorem conforms_assign (hc : c.plans = Plan.all r) {d : ClassDef} {i : InitialValue}
    {a : Assignment} {o : Object} (hd : d ∈ r.classes) (ha : Plan.assignment r d i = .ok a)
    (ho : c.Conforms d.name o) : ∃ o', assign d.name o a = .ok o' ∧ c.Conforms d.name o' := by
  obtain ⟨found, t, l, hfound, ht, hl, rfl⟩ := Plan.assignment_eq_ok.1 ha
  obtain ⟨hline, hfield, -⟩ := Registry.resolve?_eq_some.1 hfound
  have hancestor := Registry.ancestor?_of_lineage hline
  have howner := Registry.mem_classes_of_ancestor? hd hancestor
  obtain ⟨s, hs⟩ := Scalar.exists_ofLiteral? hl
  have hchange (q : Object) (hq : c.Conforms found.owner.name q) :
      ∃ q', q.setOwn? i.field (.scalar s) = some q' ∧ c.Conforms found.owner.name q' := by
    obtain ⟨hname, hevery⟩ := hq
    obtain ⟨p, hp, -⟩ := hevery.here
    rw [hname] at hp
    obtain ⟨k, layout, hlayout, hplan⟩ := (built_of_mem hc howner hp).field?_of_class hfield
    refine conforms_setOwn ⟨hname, hevery⟩ hp hplan (fits_scalar.2 ?_)
    rw [Scalar.type_of_ofLiteral? hs]
    exact scalarType?_of_layout hlayout ht
  obtain ⟨o', ho', hconforms⟩ := conforms_updateAtDepth hc hd hancestor hchange ho
  refine ⟨o', ?_, hconforms⟩
  simp [assign, literal, hs, ho']

theorem conforms_assignments (hc : c.plans = Plan.all r) {d : ClassDef} {is : List InitialValue}
    {as : List Assignment} {o : Object} (hd : d ∈ r.classes)
    (has : List.Forall₂ (fun i a => Plan.assignment r d i = .ok a) is as)
    (ho : c.Conforms d.name o) :
    ∃ o', as.foldlM (assign d.name) o = .ok o' ∧ c.Conforms d.name o' := by
  induction has generalizing o with
  | nil => exact ⟨o, rfl, ho⟩
  | cons ha _ ih =>
      obtain ⟨o₁, ho₁, hconforms⟩ := conforms_assign hc hd ha ho
      obtain ⟨o', ho', hconforms'⟩ := ih hconforms
      exact ⟨o', by simp [ho₁, ho'], hconforms'⟩

end Assign

section Initial

variable {make : String → Except CodecError Object} {className n : String} {f : FieldPlan} {v : Value}

theorem init_of_scalarType? {t : Primitive} (hl : f.layout.isList = false)
    (ht : f.layout.scalarType? = some t) :
    f.default = none ∧ f.init = .zero t ∨ ∃ l, f.default = some l ∧ f.init = .default t l := by
  rw [FieldPlan.init]
  cases hlayout : f.layout with
  | scalar _ | lengthOf _ _ =>
      rw [hlayout] at ht
      cases ht
      cases f.default with
      | none => exact .inl ⟨rfl, rfl⟩
      | some l => exact .inr ⟨l, rfl, rfl⟩
  | nested _ =>
      rw [hlayout] at ht
      cases ht
  | fixedScalars _ _ | fixedNested _ _ | scalarList _ _ | nestedList _ _ =>
      rw [hlayout] at hl
      cases hl

theorem fits_initial (hmake : ∀ name q, make name = .ok q → c.Conforms name q)
    (h : initial make className n f.init = .ok v) : c.Fits f.layout v := by
  have hscalar {t : Primitive} (hl : f.layout.isList = false) (ht : f.layout.scalarType? = some t) :
      c.Fits f.layout v := by
    rcases init_of_scalarType? hl ht with ⟨-, hinit⟩ | ⟨l, -, hinit⟩
    · rw [hinit] at h
      cases h
      exact fits_scalar.2 ⟨hl, ht⟩
    · rw [hinit] at h
      obtain ⟨s, hs, rfl⟩ := literal_eq_ok.1 h
      exact fits_scalar.2 ⟨hl, by rw [ht, Scalar.type_of_ofLiteral? hs]⟩
  rw [FieldPlan.init] at h
  cases hl : f.layout with
  | scalar t | lengthOf t _ => exact hl ▸ hscalar (by rw [hl]; rfl) (by rw [hl]; rfl)
  | nested name =>
      rw [hl] at h
      obtain ⟨q, hq, h⟩ := bind_eq_ok.1 h
      cases h
      exact fits_object.2 ⟨rfl, name, rfl, hmake name q hq⟩
  | fixedScalars t length =>
      rw [hl] at h
      cases h
      refine fits_list.2 ⟨rfl, by simp [Layout.fixedLength?], ?_⟩
      intro w hw
      obtain rfl := List.eq_of_mem_replicate hw
      exact fitsElement_scalar.2 rfl
  | fixedNested name length =>
      simp only [hl, initial] at h
      split at h
      next hzero =>
        cases h
        exact fits_list.2 ⟨rfl, by simp [Layout.fixedLength?, hzero], by simp⟩
      next =>
        obtain ⟨q, hq, h⟩ := bind_eq_ok.1 h
        cases h
        refine fits_list.2 ⟨rfl, by simp [Layout.fixedLength?], ?_⟩
        intro w hw
        obtain rfl := List.eq_of_mem_replicate hw
        exact fitsElement_object.2 ⟨name, rfl, hmake name q hq⟩
  | scalarList t count =>
      rw [hl] at h
      cases h
      exact fits_list.2 ⟨rfl, by simp [Layout.fixedLength?], by simp⟩
  | nestedList name count =>
      rw [hl] at h
      cases h
      exact fits_list.2 ⟨rfl, by simp [Layout.fixedLength?], by simp⟩

theorem exists_literal_of_default {d : ClassDef} {i : Nat} {g : Field} {l : Layout} {t : Primitive}
    {value : Literal} (hl : HasLayout r d i g.type l) (ht : l.scalarType? = some t)
    (hd : g.type.default? = some value) : ∃ s, Scalar.ofLiteral? t value = some s := by
  generalize htype : g.type = type at hl hd
  cases hl with
  | scalar h _ | lengthOf h _ _ _ =>
      cases ht
      simp only [FieldType.default?, h, Option.bind_some] at hd
      obtain ⟨text, -, hread⟩ := Option.bind_eq_some_iff.1 hd
      exact Scalar.exists_ofLiteral? hread
  | _ => cases hd

theorem exists_initial {d : ClassDef} {p : Plan} (hb : Built r d p) (hf : f ∈ p.fields)
    (hv : c.Fits f.layout v)
    (hmake : ∀ name q, f.layout.className? = some name → f.layout.isVariableList = false →
      c.Conforms name q → ∃ q', make name = .ok q') :
    ∃ w, initial make className n f.init = .ok w := by
  obtain ⟨i, hi⟩ := List.mem_iff_getElem?.1 hf
  obtain ⟨g, -, hlayout, -, hdefault⟩ := hb.field_of_plan hi
  have hscalar {t : Primitive} (hl : f.layout.isList = false) (ht : f.layout.scalarType? = some t) :
      ∃ w, initial make className n f.init = .ok w := by
    rcases init_of_scalarType? hl ht with ⟨-, hinit⟩ | ⟨l, hd, hinit⟩
    · exact ⟨_, by rw [hinit]; rfl⟩
    · obtain ⟨s, hs⟩ := exists_literal_of_default hlayout ht (hdefault.symm.trans hd)
      exact ⟨_, by rw [hinit]; exact literal_eq_ok.2 ⟨s, hs, rfl⟩⟩
  rw [FieldPlan.init] at hscalar ⊢
  cases hl : f.layout with
  | scalar t | lengthOf t _ =>
      rw [hl] at hscalar
      exact hscalar rfl rfl
  | nested name =>
      rw [hl] at hv
      obtain ⟨q, _, rfl, ⟨⟩, hq⟩ := (hv.element rfl).exists_object rfl
      obtain ⟨q', hq'⟩ := hmake name q (by rw [hl]; rfl) (by rw [hl]; rfl) hq
      exact ⟨.object q', by simp [initial, hq']⟩
  | fixedScalars t length => exact ⟨_, rfl⟩
  | fixedNested name length =>
      rw [hl] at hv
      obtain ⟨vs, rfl, hlength, hvs⟩ := hv.exists_list rfl
      cases vs with
      | nil =>
          obtain rfl : length = 0 := (hlength length rfl).symm
          exact ⟨.list [], rfl⟩
      | cons w ws =>
          obtain ⟨q, _, rfl, ⟨⟩, hq⟩ := (hvs w (by simp)).exists_object rfl
          obtain ⟨q', hq'⟩ := hmake name q (by rw [hl]; rfl) (by rw [hl]; rfl) hq
          have hpos : length ≠ 0 := by simp [← hlength length rfl]
          exact ⟨.list (List.replicate length (.object q')), by simp [initial, hpos, hq']⟩
  | scalarList t count => exact ⟨_, rfl⟩
  | nestedList name count => exact ⟨_, rfl⟩

end Initial

theorem conforms_new {make : String → Except CodecError Object} {name : String} {p : Plan}
    {parent : Option Object} {fields : List (String × Value)}
    (hmake : ∀ target q, make target = .ok q → c.Conforms target q) (hp : c.plan name = .ok p)
    (hparent : p.parent.mapM make = .ok parent)
    (hfields : (p.fields.mapM fun f => do
      return (f.name, ← initial make name f.name f.init)) = .ok fields) :
    c.Conforms name (.mk name parent fields) := by
  refine conforms_mk.2 ⟨rfl, p, hp, ?_, ?_⟩
  · cases hname : p.parent with
    | none =>
        rw [hname] at hparent
        cases hparent
        trivial
    | some target =>
        rw [hname] at hparent
        obtain ⟨q, hq, rfl⟩ := map_eq_ok.1 hparent
        exact hmake target q hq
  · apply (mapM_eq_ok.1 hfields).imp
    intro f e he
    obtain ⟨v, hv, he⟩ := bind_eq_ok.1 he
    cases he
    exact ⟨rfl, fits_initial hmake hv⟩

theorem conforms_of_instantiateWithin (hc : c.plans = Plan.all r) {depth : Nat} {name : String}
    {o : Object} (h : c.instantiateWithin depth name = .ok o) : c.Conforms name o := by
  induction depth generalizing name o with
  | zero => cases h
  | succ depth ih =>
      obtain ⟨p, hp, h⟩ := bind_eq_ok.1 h
      obtain ⟨parent, hparent, h⟩ := bind_eq_ok.1 h
      obtain ⟨fields, hfields, h⟩ := bind_eq_ok.1 h
      obtain ⟨d, hd, rfl, hb⟩ := built_of_plan hc hp
      have hnew := conforms_new (fun _ _ => ih) hp hparent hfields
      obtain ⟨o', ho', hconforms⟩ := conforms_assignments hc hd hb.assignments hnew
      rw [ho'] at h
      cases h
      exact hconforms

theorem conforms_of_instantiate (hc : c.plans = Plan.all r) {name : String} {o : Object}
    (h : c.instantiate name = .ok o) : c.Conforms name o :=
  conforms_of_instantiateWithin hc h

theorem Conforms.exists_plan {name : String} {o : Object} (ho : c.Conforms name o) :
    ∃ p, c.plan name = .ok p := by
  obtain ⟨rfl, hevery⟩ := ho
  obtain ⟨p, hp, -⟩ := hevery.here
  exact ⟨p, hp⟩

theorem rank_lt_of_embeds (hc : c.plans = Plan.all r) {name target : String} {q : Object}
    (h : r.Embeds name target) (hq : c.Conforms target q) : r.rank target < r.rank name := by
  obtain ⟨p, hp⟩ := hq.exists_plan
  obtain ⟨d, hd, rfl, hb⟩ := built_of_plan hc hp
  refine Registry.rank_lt h (Registry.contains_iff.2 ⟨d, Registry.find?_eq_some.2 ⟨hd, rfl⟩⟩) ?_
  rw [← Registry.selfEmbedding?_isSome hd, hb.embedding]
  simp

theorem embeds_of_layout {d : ClassDef} {p : Plan} {f : FieldPlan} {target : String}
    (hd : d ∈ r.classes) (hb : Built r d p) (hf : f ∈ p.fields)
    (hl : f.layout.className? = some target) (hv : f.layout.isVariableList = false) :
    r.Embeds d.name target := by
  obtain ⟨i, hi⟩ := List.mem_iff_getElem?.1 hf
  obtain ⟨g, hg, hlayout, -, -⟩ := hb.field_of_plan hi
  refine ⟨d, Registry.find?_eq_some.2 ⟨hd, rfl⟩, .inr ⟨g, List.mem_of_getElem? hg, ?_⟩⟩
  generalize f.layout = layout at hl hv hlayout
  generalize htype : g.type = type at hlayout
  cases hlayout with
  | nested known => cases hl; exact .inl rfl
  | fixedNested known => cases hl; exact .inr ⟨_, _, rfl⟩
  | nestedList known counted => cases hv
  | _ => cases hl

theorem exists_instantiateWithin (hc : c.plans = Plan.all r) {depth : Nat} {name : String}
    {o : Object} (ho : c.Conforms name o) (hdepth : r.rank name < depth) :
    ∃ q, c.instantiateWithin depth name = .ok q := by
  induction depth generalizing name o with
  | zero => omega
  | succ depth ih =>
      obtain ⟨className, parent, fields⟩ := o
      obtain ⟨rfl, p, hp, hparent, hfields⟩ := conforms_mk.1 ho
      obtain ⟨d, hd, rfl, hb⟩ := built_of_plan hc hp
      have hpart {target : String} {q : Object} (h : r.Embeds d.name target)
          (hq : c.Conforms target q) : ∃ q', c.instantiateWithin depth target = .ok q' := by
        have hlt := rank_lt_of_embeds hc h hq
        exact ih hq (by omega)
      obtain ⟨newParent, hnewParent⟩ :
          ∃ part, p.parent.mapM (c.instantiateWithin depth) = .ok part := by
        cases hname : p.parent with
        | none => exact ⟨none, rfl⟩
        | some target =>
            rw [hname] at hparent
            cases parent with
            | none => cases hparent
            | some q =>
                have hembeds : r.Embeds d.name target :=
                  ⟨d, Registry.find?_eq_some.2 ⟨hd, rfl⟩, .inl (hb.parent ▸ hname)⟩
                obtain ⟨q', hq'⟩ := hpart hembeds hparent
                exact ⟨some q', map_eq_ok.2 ⟨q', hq', rfl⟩⟩
      obtain ⟨newFields, hnewFields⟩ : ∃ fs, (p.fields.mapM fun f => do
          return (f.name, ← initial (c.instantiateWithin depth) d.name f.name f.init)) = .ok fs := by
        apply exists_mapM_eq_ok
        intro f hf
        obtain ⟨e, -, -, hfits⟩ := exists_right_of_mem hfields hf
        obtain ⟨w, hw⟩ : ∃ w, initial (c.instantiateWithin depth) d.name f.name f.init = .ok w :=
          exists_initial hb hf hfits fun target q hl hv hq =>
            hpart (embeds_of_layout hd hb hf hl hv) hq
        exact ⟨_, bind_eq_ok.2 ⟨w, hw, rfl⟩⟩
      have hnew := conforms_new (fun _ _ => conforms_of_instantiateWithin hc) hp hnewParent hnewFields
      obtain ⟨o', ho', -⟩ := conforms_assignments hc hd hb.assignments hnew
      exact ⟨o', by simp only [instantiateWithin, hp, hnewParent, hnewFields, ok_bind, ho']⟩

theorem exists_instantiate (hc : c.plans = Plan.all r) {name : String} {o : Object}
    (ho : c.Conforms name o) : ∃ q, c.instantiate name = .ok q := by
  apply exists_instantiateWithin hc ho
  have hlength : c.plans.length = r.classes.length := by simp [hc, Plan.all]
  have := r.rank_le name
  omega

end Codec

end WireSchema
