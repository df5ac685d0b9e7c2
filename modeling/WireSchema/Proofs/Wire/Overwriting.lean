import WireSchema.Proofs.Wire.Interruption

namespace WireSchema

open Outcome

namespace Object

structure AgreeOn (a b : Object) (fs : List FieldPlan) : Prop where
  parent : a.parent = b.parent
  own : ∀ f ∈ fs, a.own? f.name = b.own? f.name

theorem AgreeOn.setOwn {a b a' b' : Object} {fs : List FieldPlan} (h : a.AgreeOn b fs)
    {f : FieldPlan} {v : Value} (ha : a.setOwn? f.name v = some a')
    (hb : b.setOwn? f.name v = some b') : a'.AgreeOn b' (fs ++ [f]) where
  parent := by rw [parent_of_setOwn? ha, parent_of_setOwn? hb, h.parent]
  own g hg := by
    rw [own?_of_setOwn? ha, own?_of_setOwn? hb]
    by_cases hname : g.name = f.name
    · rw [if_pos hname, if_pos hname]
    · rw [if_neg hname, if_neg hname]
      rcases List.mem_append.1 hg with hg | hg
      · exact h.own g hg
      · exact absurd (congrArg FieldPlan.name (List.mem_singleton.1 hg)) hname

theorem AgreeOn.atDepth {a b : Object} {fs : List FieldPlan} (h : a.AgreeOn b fs)
    {s : CountSource} (hs : s.depth = 0 → ∃ g ∈ fs, g.name = s.field) :
    (a.atDepth? s.depth).bind (·.own? s.field) = (b.atDepth? s.depth).bind (·.own? s.field) := by
  cases hdepth : s.depth with
  | zero =>
      obtain ⟨g, hg, hname⟩ := hs hdepth
      simpa only [atDepth?, Option.bind_some, hname] using h.own g hg
  | succ depth => simp only [atDepth?, h.parent]

end Object

namespace Codec

def Overwrites (c : Codec) (decode : Object → Bytes → Decoded) : Prop :=
  ∀ {name a b}, c.Conforms name a → c.Conforms name b → ∀ bs,
    (decode a bs).outcome = (decode b bs).outcome

variable {c : Codec} {r : Registry} {decode : Object → Bytes → Decoded} {a b o : Object}
  {name : String} {p : Plan} {f : FieldPlan} {before after : List FieldPlan} {bs : Bytes}

theorem eq_of_agreeOn (hs : p.Sound) (ha : c.Conforms name a) (hb : c.Conforms name b)
    (hp : c.plan name = .ok p) (h : a.AgreeOn b p.fields) : a = b := by
  have hvalue : ∀ f ∈ p.fields, ∃ v, a.own? f.name = some v ∧ b.own? f.name = some v := by
    intro f hf
    obtain ⟨v, hv, -⟩ := exists_own? ha hp hs hf
    exact ⟨v, hv, h.own f hf ▸ hv⟩
  obtain ⟨classA, parentA, fieldsA⟩ := a
  obtain ⟨classB, parentB, fieldsB⟩ := b
  obtain ⟨rfl, pa, hpa, -, hfieldsA⟩ := conforms_mk.1 ha
  obtain ⟨rfl, pb, hpb, -, hfieldsB⟩ := conforms_mk.1 hb
  rw [hp] at hpa hpb
  cases hpa
  cases hpb
  -- Both lists of fields are what the plan and the common values say.
  have hlistA := forall₂_of_lookup (P := fun f v => fieldsB.lookup f.name = some v)
    (map_name_of_forall₂ hfieldsA) hs.names hvalue
  have hlistB := forall₂_of_lookup (P := fun f v => fieldsB.lookup f.name = some v)
    (map_name_of_forall₂ hfieldsB) hs.names fun f hf =>
      (hvalue f hf).imp fun v hv => ⟨hv.2, hv.2⟩
  have hfields : fieldsA = fieldsB := by
    refine List.right_unique_forall₂' ?_ hlistA hlistB
    rintro f ⟨n, v⟩ ⟨m, w⟩ ⟨rfl, hv⟩ ⟨rfl, hw⟩
    rw [hv] at hw
    cases hw
    rfl
  obtain rfl : parentA = parentB := h.parent
  rw [hfields]

section Field

theorem readField_congr (hs : c.Sound) (hdecode : c.Overwrites decode) (ha : c.Conforms name a)
    (hb : c.Conforms name b) (hp : c.plan name = .ok p) (hfields : p.fields = before ++ f :: after)
    (h : a.AgreeOn b before) : c.readField decode a f bs = c.readField decode b f bs := by
  have hcount (s : CountSource) (hlayout : f.layout.count? = some s) :
      elementCount a f.name s = elementCount b f.name s := by
    have hvalue := h.atDepth (s := s) fun hd =>
      ((hs hp).counted hfields hlayout hd).imp fun g hg => ⟨hg.1, hg.2.1⟩
    simp only [elementCount, hvalue, ha.1, hb.1]
  rw [readField, readField]
  cases hlayout : f.layout with
  | scalar t | lengthOf t _ | fixedScalars t _ | fixedNested target _ => rfl
  | scalarList t s =>
      simp only [readScalarList, hcount s (by rw [hlayout]; rfl), ha.1, hb.1]
  | nestedList target s =>
      simp only [readObjectList, hcount s (by rw [hlayout]; rfl)]
  | nested target =>
      have hf : f ∈ p.fields := by simp [hfields]
      obtain ⟨q, hown, hq⟩ := exists_own?_nested (hs hp) ha hp hf hlayout
      obtain ⟨q', hown', hq'⟩ := exists_own?_nested (hs hp) hb hp hf hlayout
      simp only [hown, hown', hdecode hq hq' bs]

theorem outcome_of_readField_error {e : CodecError} (h : c.readField decode o f bs = .error e) :
    (c.decodeField decode o f bs).outcome = .error e := by
  by_cases hl : ∃ target, f.layout = .nested target
  · obtain ⟨target, hl⟩ := hl
    simp only [readField, hl] at h
    split at h
    next q hq =>
      have hrest : (decode q bs).rest = .error e := Decoded.outcome_eq_error.1 (map_eq_error.1 h)
      rw [decodeField_of_nested hl hq]
      exact Decoded.outcome_eq_error.2 hrest
    next =>
      cases h
      simp only [decodeField, hl]
      rfl
  · rw [decodeField_of_ne fun target heq => hl ⟨target, heq⟩, h]
    rfl

theorem exists_of_readField (hc : c.plans = Plan.all r) (hs : c.Sound)
    (hkeeps : c.Preserves decode) (ho : c.Conforms name o) (hp : c.plan name = .ok p)
    (hf : f ∈ p.fields) {v : Value} {rest : Bytes}
    (h : c.readField decode o f bs = .ok (v, rest)) : ∃ o', o.setOwn? f.name v = some o' ∧
      c.Conforms name o' ∧ (c.decodeField decode o f bs).outcome = .ok (o', rest) := by
  have hfield := Plan.field?_of_mem (hs hp) hf
  by_cases hl : ∃ target, f.layout = .nested target
  · obtain ⟨target, hl⟩ := hl
    obtain ⟨q, hown, hq⟩ := exists_own?_nested (hs hp) ho hp hf hl
    simp only [readField, hl, hown] at h
    obtain ⟨⟨q', rest'⟩, hdecode, h⟩ := map_eq_ok.1 h
    cases h
    rw [Decoded.outcome_eq_ok] at hdecode
    have hq' : c.Conforms target q' := by simpa [hdecode] using hkeeps hq bs
    obtain ⟨o', hset, hconforms⟩ := conforms_setOwn ho hp hfield (fits_nested hl hq')
    refine ⟨o', hset, hconforms, Decoded.outcome_eq_ok.2 ?_⟩
    rw [decodeField_of_nested hl hown, hdecode, hset, Option.getD_some]
  · have hl : ∀ target, f.layout ≠ .nested target := fun target heq => hl ⟨target, heq⟩
    obtain ⟨o', hset, hconforms⟩ :=
      conforms_setOwn ho hp hfield (fits_of_readField hc hkeeps hl h)
    refine ⟨o', hset, hconforms, Decoded.outcome_eq_ok.2 ?_⟩
    rw [decodeField_of_ne hl, h]
    simp only [put, hset]

end Field

section Steps

theorem outcome_decodeFields (hc : c.plans = Plan.all r) (hs : c.Sound)
    (hkeeps : c.Preserves decode) (hdecode : c.Overwrites decode) (ha : c.Conforms name a)
    (hb : c.Conforms name b) (hp : c.plan name = .ok p) (hfields : p.fields = before ++ after)
    (h : a.AgreeOn b before) (bs : Bytes) :
    (c.decodeSteps decode a (after.map .field) bs).outcome =
      (c.decodeSteps decode b (after.map .field) bs).outcome := by
  induction after generalizing before a b bs with
  | nil =>
      rw [List.append_nil] at hfields
      obtain rfl : a = b := eq_of_agreeOn (hs hp) ha hb hp (hfields ▸ h)
      rfl
  | cons f after ih =>
      have hf : f ∈ p.fields := by simp [hfields]
      have hread : c.readField decode a f bs = c.readField decode b f bs :=
        readField_congr hs hdecode ha hb hp hfields h
      simp only [List.map_cons, outcome_decodeSteps_cons, decodeStep]
      cases hx : c.readField decode b f bs with
      | error e =>
          rw [outcome_of_readField_error (hread.trans hx), outcome_of_readField_error hx]
      | ok x =>
          obtain ⟨v, rest⟩ := x
          obtain ⟨a', hsetA, hconformsA, houtA⟩ :=
            exists_of_readField hc hs hkeeps ha hp hf (hread.trans hx)
          obtain ⟨b', hsetB, hconformsB, houtB⟩ := exists_of_readField hc hs hkeeps hb hp hf hx
          rw [houtA, houtB]
          exact ih hconformsA hconformsB (by simp [hfields]) (h.setOwn hsetA hsetB) rest

theorem outcome_decodeOwn (hc : c.plans = Plan.all r) (hs : c.Sound)
    (hkeeps : c.Preserves decode) (hdecode : c.Overwrites decode) (ha : c.Conforms name a)
    (hb : c.Conforms name b) (hp : c.plan name = .ok p) (bs : Bytes) :
    (c.decodeSteps decode a p.wireSteps bs).outcome =
      (c.decodeSteps decode b p.wireSteps bs).outcome := by
  cases htarget : p.parent with
  | none =>
      have hparent {o : Object} (ho : c.Conforms name o) : o.parent = none := by
        cases hq : o.parent with
        | none => rfl
        | some q =>
            obtain ⟨target, h, -⟩ := exists_parent ho hp hq
            rw [htarget] at h
            cases h
      have hsteps : p.wireSteps = p.fields.map .field := by simp [Plan.wireSteps, htarget]
      rw [hsteps]
      refine outcome_decodeFields hc hs hkeeps hdecode ha hb hp (List.nil_append _).symm ?_ bs
      exact ⟨by rw [hparent ha, hparent hb], by simp⟩
  | some target =>
      obtain ⟨q, hq, hconforms⟩ := exists_parent_of_plan ha (ha.1 ▸ hp) htarget
      obtain ⟨q', hq', hconforms'⟩ := exists_parent_of_plan hb (hb.1 ▸ hp) htarget
      have hpart := hdecode hconforms hconforms' bs
      rw [wireSteps_of_parent htarget]
      simp only [outcome_decodeSteps_cons, decodeStep, hq, hq']
      cases hout : (decode q' bs).outcome with
      | error e =>
          have hrest := Decoded.outcome_eq_error.1 (hpart.trans hout)
          have hrest' := Decoded.outcome_eq_error.1 hout
          simp only [Decoded.outcome, hrest, hrest']
          rfl
      | ok x =>
          obtain ⟨part, rest⟩ := x
          have hd := Decoded.outcome_eq_ok.1 (hpart.trans hout)
          have hd' := Decoded.outcome_eq_ok.1 hout
          have hnew : c.Conforms target part := by simpa [hd] using hkeeps hconforms bs
          rw [hd, hd']
          refine outcome_decodeFields hc hs hkeeps hdecode
            (conforms_withParent ha hq hconforms.1 hnew)
            (conforms_withParent hb hq' hconforms'.1 hnew) hp (List.nil_append _).symm ?_ rest
          exact ⟨rfl, by simp⟩

theorem overwrites_decodeWithin (hc : c.plans = Plan.all r) (hs : c.Sound) (depth : Nat) :
    c.Overwrites (c.decodeWithin depth) := by
  induction depth with
  | zero =>
      intro name a b ha hb bs
      simp only [decodeWithin, Decoded.outcome, ha.1, hb.1]
      rfl
  | succ depth ih =>
      intro name a b ha hb bs
      obtain ⟨p, hp⟩ := ha.exists_plan
      simp only [decodeWithin, ha.1, hb.1, hp]
      exact outcome_decodeOwn hc hs (preserves_decodeWithin hc hs depth) ih ha hb hp bs

theorem overwrites_decodeInto (hc : c.plans = Plan.all r) (hs : c.Sound) :
    c.Overwrites c.decodeInto := by
  intro name a b ha hb bs
  -- A depth that is enough for both objects.
  rw [← decodeWithin_eq_decodeInto hc ((enough_decodeInto hc a bs).mono (Nat.le_max_left _ _)),
    ← decodeWithin_eq_decodeInto hc ((enough_decodeInto hc b bs).mono (Nat.le_max_right _ _))]
  exact overwrites_decodeWithin hc hs _ ha hb bs

end Steps

/-- Decoding into two objects of one class takes as many bytes or fails for the same reason, and if
it succeeds then it leaves the same object. -/
theorem decodeInto_overwrites {source : String} {loaded : Loaded}
    (h : Schema.check source = .ok loaded) {e : Endian}
    (hc : c = ofRegistry loaded.schema.registry e) (ha : c.Conforms name a)
    (hb : c.Conforms name b) (bs : Bytes) :
    used bs (c.decodeInto a bs) = used bs (c.decodeInto b bs) ∧
    ∀ rest, (c.decodeInto a bs).rest = .ok rest → c.decodeInto a bs = c.decodeInto b bs := by
  have hs : c.Sound := hc ▸ sound_of_check h e
  have hplans : c.plans = Plan.all loaded.schema.registry := by rw [hc]; rfl
  have houtcome := overwrites_decodeInto hplans hs ha hb bs
  cases hrest : (c.decodeInto a bs).rest with
  | error error =>
      have hother : (c.decodeInto b bs).rest = .error error :=
        Decoded.outcome_eq_error.1 (houtcome ▸ Decoded.outcome_eq_error.2 hrest)
      exact ⟨by rw [used, used, hrest, hother], fun rest h => by cases h⟩
  | ok rest =>
      have hfirst : c.decodeInto a bs = ⟨(c.decodeInto a bs).object, .ok rest⟩ := by rw [← hrest]
      have hsame : c.decodeInto a bs = c.decodeInto b bs :=
        hfirst.trans (Decoded.outcome_eq_ok.1 (houtcome ▸ Decoded.outcome_eq_ok.2 hfirst)).symm
      exact ⟨by rw [hsame], fun _ _ => hsame⟩

theorem decodeInto_overwrites_sample : ∃ c new, c = ofRegistry Registry.sample .big ∧
    c.instantiate "B" = .ok new ∧
    used [1, 0, 0, 3, 9] (c.decodeInto new [1, 0, 0, 3, 9]) = .ok 4 ∧
    c.decodeInto new [1, 0, 0, 3, 9] = c.decodeInto (.sampleDerived 5 7) [1, 0, 0, 3, 9] := by
  obtain ⟨loaded, hloaded, hr⟩ := Schema.check_sample
  have hrest : ((ofRegistry Registry.sample .big).decodeInto
      (.mk "B" (some (.sampleBase 0 [])) [("v", .list [])]) [1, 0, 0, 3, 9]).rest = .ok [9] := by
    rw [ofRegistry_sample]
    decide +kernel
  obtain ⟨-, hsame⟩ := decodeInto_overwrites hloaded (by rw [hr])
    (conforms_of_instantiate rfl instantiate_sampleDerived) conforms_sampleDerived [1, 0, 0, 3, 9]
  exact ⟨_, _, rfl, instantiate_sampleDerived, by rw [used, hrest]; rfl, hsame _ hrest⟩

end Codec

end WireSchema
