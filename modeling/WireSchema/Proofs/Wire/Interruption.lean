import WireSchema.Proofs.Wire.Equality
import WireSchema.Proofs.Wire.Termination

namespace WireSchema

open Outcome

namespace Codec

def Preserves (c : Codec) (decode : Object → Bytes → Decoded) : Prop :=
  ∀ {name o}, c.Conforms name o → ∀ bs, c.Conforms name (decode o bs).object

def readField (c : Codec) (decode : Object → Bytes → Decoded) (o : Object) (f : FieldPlan)
    (bs : Bytes) : Except CodecError (Value × Bytes) :=
  match f.layout with
  | .scalar t | .lengthOf t _ => c.readScalarValue t bs
  | .fixedScalars t length => readMany (c.readScalarValue t) [] length bs
  | .fixedNested className length => readMany (c.readObject decode className) [] length bs
  | .scalarList t count => c.readScalarList o f.name t count bs
  | .nestedList className count => c.readObjectList decode o f.name className count bs
  | .nested _ =>
    match o.own? f.name with
    | some (.object part) => (decode part bs).outcome.map fun x => (.object x.1, x.2)
    | _ => .error (.missing o.className f.name)

variable {c : Codec} {r : Registry} {decode : Object → Bytes → Decoded} {o : Object}
  {f : FieldPlan} {bs : Bytes}

section Field

theorem decodeField_of_ne (hl : ∀ target, f.layout ≠ .nested target) :
    c.decodeField decode o f bs = put o f.name (c.readField decode o f bs) := by
  rw [decodeField, readField]
  cases hlayout : f.layout with
  | nested target => exact absurd hlayout (hl target)
  | _ => rfl

theorem decodeField_of_nested {target : String} {q : Object} (hl : f.layout = .nested target)
    (hq : o.own? f.name = some (.object q)) : c.decodeField decode o f bs =
      ⟨(o.setOwn? f.name (.object (decode q bs).object)).getD o, (decode q bs).rest⟩ := by
  simp only [decodeField, hl, hq]

theorem exists_of_readMany {read : Bytes → Except CodecError (Value × Bytes)} {P : Value → Prop}
    (hread : ∀ bs v rest, read bs = .ok (v, rest) → P v) {done : List Value} {n : Nat} {v : Value}
    {rest : Bytes} (hdone : ∀ w ∈ done, P w) (h : readMany read done n bs = .ok (v, rest)) :
    ∃ vs, v = .list vs ∧ vs.length = done.length + n ∧ ∀ w ∈ vs, P w := by
  induction n generalizing done bs with
  | zero =>
      cases h
      exact ⟨done.reverse, rfl, by simp, by simpa using hdone⟩
  | succ n ih =>
      rw [readMany_succ] at h
      obtain ⟨⟨w, middle⟩, hw, h⟩ := bind_eq_ok.1 h
      have hnext : ∀ x ∈ w :: done, P x := List.forall_mem_cons.2 ⟨hread bs w middle hw, hdone⟩
      obtain ⟨vs, rfl, hlength, hvs⟩ := ih hnext h
      exact ⟨vs, rfl, by simp [hlength]; omega, hvs⟩

theorem fitsElement_of_readScalarValue {l : Layout} {t : Primitive} (hl : l.scalarType? = some t)
    {bs : Bytes} {v : Value} {rest : Bytes} (h : c.readScalarValue t bs = .ok (v, rest)) :
    c.FitsElement l v := by
  obtain ⟨chunk, -, s, rfl, rfl, -⟩ := (parses_readScalarValue t bs v rest).1 h
  exact fitsElement_scalar.2 hl

theorem fitsElement_of_readObject (hc : c.plans = Plan.all r) (hdecode : c.Preserves decode)
    {l : Layout} {name : String} (hl : l.className? = some name) {bs : Bytes} {v : Value}
    {rest : Bytes} (h : c.readObject decode name bs = .ok (v, rest)) : c.FitsElement l v := by
  obtain ⟨new, hnew, h⟩ := bind_eq_ok.1 h
  obtain ⟨rest', -, h⟩ := bind_eq_ok.1 h
  cases h
  exact fitsElement_object.2 ⟨name, hl, hdecode (conforms_of_instantiate hc hnew) bs⟩

theorem fits_of_readMany {l : Layout} (hl : l.isList)
    {read : Bytes → Except CodecError (Value × Bytes)}
    (hread : ∀ bs v rest, read bs = .ok (v, rest) → c.FitsElement l v) {n : Nat} {v : Value}
    {rest : Bytes} (hn : ∀ m, l.fixedLength? = some m → n = m)
    (h : readMany read [] n bs = .ok (v, rest)) : c.Fits l v := by
  obtain ⟨vs, rfl, hlength, hvs⟩ := exists_of_readMany hread (by simp) h
  refine fits_list.2 ⟨hl, fun m hm => ?_, hvs⟩
  rw [hlength, List.length_nil, Nat.zero_add]
  exact hn m hm

theorem fits_of_readField (hc : c.plans = Plan.all r) (hdecode : c.Preserves decode)
    (hl : ∀ target, f.layout ≠ .nested target) {v : Value} {rest : Bytes}
    (h : c.readField decode o f bs = .ok (v, rest)) : c.Fits f.layout v := by
  rw [readField] at h
  cases hlayout : f.layout with
  | nested target => exact absurd hlayout (hl target)
  | scalar t | lengthOf t _ =>
      rw [hlayout] at h
      obtain ⟨chunk, -, s, rfl, rfl, -⟩ := (parses_readScalarValue t bs v rest).1 h
      exact fits_scalar.2 ⟨rfl, rfl⟩
  | fixedScalars t length =>
      rw [hlayout] at h
      exact fits_of_readMany rfl (fun _ _ _ => fitsElement_of_readScalarValue rfl)
        (fun m hm => Option.some.inj hm) h
  | fixedNested target length =>
      rw [hlayout] at h
      exact fits_of_readMany rfl (fun _ _ _ => fitsElement_of_readObject hc hdecode rfl)
        (fun m hm => Option.some.inj hm) h
  | scalarList t count =>
      rw [hlayout] at h
      obtain ⟨n, -, h⟩ := bind_eq_ok.1 h
      exact fits_of_readMany rfl (fun _ _ _ => fitsElement_of_readScalarValue rfl)
        (by rintro m ⟨⟩) (c.readScalars_eq_ok.1 h)
  | nestedList target count =>
      rw [hlayout] at h
      obtain ⟨n, -, h⟩ := bind_eq_ok.1 h
      exact fits_of_readMany rfl (fun _ _ _ => fitsElement_of_readObject hc hdecode rfl)
        (by rintro m ⟨⟩) h

end Field

section Steps

variable {name : String} {p : Plan}

theorem exists_own?_nested (hs : p.Sound) (ho : c.Conforms name o) (hp : c.plan name = .ok p)
    (hf : f ∈ p.fields) {target : String} (hl : f.layout = .nested target) :
    ∃ q, o.own? f.name = some (.object q) ∧ c.Conforms target q := by
  obtain ⟨v, hv, hfits⟩ := exists_own? ho hp hs hf
  rw [hl] at hfits
  obtain ⟨q, _, rfl, ⟨⟩, hq⟩ := (hfits.element rfl).exists_object rfl
  exact ⟨q, hv, hq⟩

theorem fits_nested {target : String} {q : Object} (hl : f.layout = .nested target)
    (hq : c.Conforms target q) : c.Fits f.layout (.object q) := by
  rw [hl]
  exact fits_object.2 ⟨rfl, target, rfl, hq⟩

theorem conforms_put (ho : c.Conforms name o) (hp : c.plan name = .ok p)
    (hf : p.field? f.name = some f) {read : Except CodecError (Value × Bytes)}
    (hread : ∀ v rest, read = .ok (v, rest) → c.Fits f.layout v) :
    c.Conforms name (put o f.name read).object := by
  cases read with
  | error e => exact ho
  | ok x =>
      obtain ⟨v, rest⟩ := x
      obtain ⟨o', hset, hconforms⟩ := conforms_setOwn ho hp hf (hread v rest rfl)
      simpa only [put, hset] using hconforms

theorem conforms_decodeStep (hc : c.plans = Plan.all r) (hs : c.Sound) (hdecode : c.Preserves decode)
    (ho : c.Conforms name o) (hp : c.plan name = .ok p) {step : WireStep}
    (hstep : step ∈ p.wireSteps) (bs : Bytes) :
    c.Conforms name (c.decodeStep decode o step bs).object := by
  cases step with
  | parent target =>
      obtain ⟨q, hq, hconforms⟩ :=
        exists_parent_of_plan ho (ho.1 ▸ hp) (mem_wireSteps_parent.1 hstep)
      simp only [decodeStep, hq]
      exact conforms_withParent ho hq hconforms.1 (hdecode hconforms bs)
  | field f =>
      have hmem := mem_wireSteps_field.1 hstep
      have hf := Plan.field?_of_mem (hs hp) hmem
      by_cases hl : ∃ target, f.layout = .nested target
      · -- An object in a field is decoded in its place, also if that fails.
        obtain ⟨target, hl⟩ := hl
        obtain ⟨q, hown, hq⟩ := exists_own?_nested (hs hp) ho hp hmem hl
        obtain ⟨o', hset, hconforms⟩ := conforms_setOwn ho hp hf (fits_nested hl (hdecode hq bs))
        simpa only [decodeStep, decodeField_of_nested hl hown, hset, Option.getD_some] using hconforms
      · have hl : ∀ target, f.layout ≠ .nested target := fun target heq => hl ⟨target, heq⟩
        rw [decodeStep, decodeField_of_ne hl]
        exact conforms_put ho hp hf fun v rest => fits_of_readField hc hdecode hl

theorem conforms_decodeSteps (hc : c.plans = Plan.all r) (hs : c.Sound)
    (hdecode : c.Preserves decode) (ho : c.Conforms name o) (hp : c.plan name = .ok p)
    {steps : List WireStep} (hsteps : ∀ step ∈ steps, step ∈ p.wireSteps) (bs : Bytes) :
    c.Conforms name (c.decodeSteps decode o steps bs).object := by
  induction steps generalizing o bs with
  | nil => exact ho
  | cons step steps ih =>
      rw [List.forall_mem_cons] at hsteps
      have hstep := conforms_decodeStep hc hs hdecode ho hp hsteps.1 bs
      rw [decodeSteps]
      split
      next => exact ih hstep hsteps.2 _
      next => exact hstep

theorem preserves_decodeWithin (hc : c.plans = Plan.all r) (hs : c.Sound) (depth : Nat) :
    c.Preserves (c.decodeWithin depth) := by
  induction depth with
  | zero => exact fun ho bs => ho
  | succ depth ih =>
      intro name o ho bs
      obtain ⟨p, hp⟩ := ho.exists_plan
      simp only [decodeWithin, ho.1, hp]
      exact conforms_decodeSteps hc hs ih ho hp (fun _ h => h) bs

theorem preserves_decodeInto (hc : c.plans = Plan.all r) (hs : c.Sound) :
    c.Preserves c.decodeInto :=
  fun ho bs => preserves_decodeWithin hc hs _ ho bs

theorem own?_put {m n : String} (hm : m ≠ n) (read : Except CodecError (Value × Bytes)) :
    (put o n read).object.own? m = o.own? m := by
  cases read with
  | error e => rfl
  | ok x =>
      obtain ⟨v, rest⟩ := x
      cases hset : o.setOwn? n v with
      | none => simp only [put, hset]
      | some o' => simp only [put, hset, Object.own?_of_setOwn? hset, if_neg hm]

theorem own?_decodeStep {m : String} {step : WireStep} (hm : ∀ f, step = .field f → f.name ≠ m)
    (bs : Bytes) : (c.decodeStep decode o step bs).object.own? m = o.own? m := by
  cases step with
  | parent target =>
      rw [decodeStep]
      split <;> rfl
  | field f =>
      have hne : m ≠ f.name := Ne.symm (hm f rfl)
      rw [decodeStep]
      rcases c.decodeField_cases decode o f bs with ⟨read, h, -⟩ | ⟨q, -, h⟩ | h
      · rw [h, own?_put hne]
      · rw [h]
        cases hset : o.setOwn? f.name (.object (decode q bs).object) with
        | none => rfl
        | some o' => exact (Object.own?_of_setOwn? hset m).trans (if_neg hne)
      · rw [h]

theorem own?_decodeSteps {m : String} {steps : List WireStep}
    (hm : ∀ f, .field f ∈ steps → f.name ≠ m) (bs : Bytes) :
    (c.decodeSteps decode o steps bs).object.own? m = o.own? m := by
  induction steps generalizing o bs with
  | nil => rfl
  | cons step steps ih =>
      have hstep : (c.decodeStep decode o step bs).object.own? m = o.own? m :=
        own?_decodeStep (fun f hf => hm f (by simp [hf])) bs
      rw [decodeSteps]
      split
      next => rw [ih fun f hf => hm f (by simp [hf]), hstep]
      next => exact hstep

theorem parent_put (n : String) (read : Except CodecError (Value × Bytes)) :
    (put o n read).object.parent = o.parent := by
  cases read with
  | error e => rfl
  | ok x =>
      obtain ⟨v, rest⟩ := x
      cases hset : o.setOwn? n v with
      | none => simp only [put, hset]
      | some o' => simp only [put, hset, Object.parent_of_setOwn? hset]

theorem parent_decodeField : (c.decodeField decode o f bs).object.parent = o.parent := by
  rcases c.decodeField_cases decode o f bs with ⟨read, h, -⟩ | ⟨q, -, h⟩ | h
  · rw [h, parent_put]
  · rw [h]
    cases hset : o.setOwn? f.name (.object (decode q bs).object) with
    | none => rfl
    | some o' => exact Object.parent_of_setOwn? hset
  · rw [h]

theorem parent_decodeFields {fs : List FieldPlan} :
    (c.decodeSteps decode o (fs.map .field) bs).object.parent = o.parent := by
  induction fs generalizing o bs with
  | nil => rfl
  | cons f fs ih =>
      have hstep : (c.decodeStep decode o (.field f) bs).object.parent = o.parent :=
        parent_decodeField
      rw [List.map_cons, decodeSteps]
      split
      next => rw [ih, hstep]
      next => exact hstep

theorem exists_of_decodeSteps_error {steps : List WireStep} {o' : Object} {error : CodecError}
    (h : c.decodeSteps decode o steps bs = ⟨o', .error error⟩) : ∃ before step after o₁ rest₁,
      steps = before ++ step :: after ∧
      c.decodeSteps decode o before bs = ⟨o₁, .ok rest₁⟩ ∧
      c.decodeStep decode o₁ step rest₁ = ⟨o', .error error⟩ := by
  induction steps generalizing o bs with
  | nil => cases h
  | cons step steps ih =>
      rw [decodeSteps] at h
      split at h
      next rest hrest =>
        obtain ⟨before, last, after, o₁, rest₁, rfl, hbefore, hlast⟩ := ih h
        refine ⟨step :: before, last, after, o₁, rest₁, rfl, decodeSteps_cons.2 ⟨_, rest, ?_, hbefore⟩,
          hlast⟩
        rw [← hrest]
      next e hrest =>
        cases h
        exact ⟨[], step, steps, o, bs, rfl, rfl, by rw [← hrest]⟩

theorem name_ne_of_wireSteps (hs : p.Sound) {before after : List WireStep} {g : FieldPlan}
    (hsteps : p.wireSteps = before ++ after) (hf : .field f ∈ before) (hg : .field g ∈ after) :
    f.name ≠ g.name := by
  have hfields : p.fields.Pairwise fun f g => f.name ≠ g.name := List.pairwise_map.1 hs.names
  have hpairs : p.wireSteps.Pairwise fun s t =>
      ∀ f g, s = .field f → t = .field g → f.name ≠ g.name := by
    refine List.pairwise_append.2 ⟨?_, ?_, ?_⟩
    · refine List.pairwise_map.2 (List.pairwise_of_forall fun _ _ _ _ h => ?_)
      cases h
    · refine List.pairwise_map.2 (hfields.imp ?_)
      rintro f g hne _ _ ⟨⟩ ⟨⟩
      exact hne
    · intro s hparent t _ f _ hf
      obtain ⟨_, -, rfl⟩ := List.mem_map.1 hparent
      cases hf
  rw [hsteps] at hpairs
  exact (List.pairwise_append.1 hpairs).2.2 _ hf _ hg f g rfl rfl

end Steps

/-- Decoding into an object of a class leaves an object of that class. If it fails, then at one of
the steps of the class, and the fields whose steps come after that one have kept their values. -/
theorem decodeInto_interrupted {source : String} {loaded : Loaded}
    (h : Schema.check source = .ok loaded) {e : Endian}
    (hc : c = ofRegistry loaded.schema.registry e) {name : String} (ho : c.Conforms name o)
    (bs : Bytes) :
    c.Conforms name (c.decodeInto o bs).object ∧
    ∀ error, (c.decodeInto o bs).rest = .error error → ∃ p before step after o₁ rest₁,
      c.plan name = .ok p ∧ p.wireSteps = before ++ step :: after ∧
      c.decodeSteps c.decodeInto o before bs = ⟨o₁, .ok rest₁⟩ ∧
      c.decodeStep c.decodeInto o₁ step rest₁ = ⟨(c.decodeInto o bs).object, .error error⟩ ∧
      ∀ f, .field f ∈ after → (c.decodeInto o bs).object.own? f.name = o.own? f.name := by
  have hs : c.Sound := hc ▸ sound_of_check h e
  have hplans : c.plans = Plan.all loaded.schema.registry := by rw [hc]; rfl
  refine ⟨preserves_decodeInto hplans hs ho bs, fun error herror => ?_⟩
  obtain ⟨p, hp⟩ := ho.exists_plan
  have hsteps : c.decodeInto o bs = c.decodeSteps c.decodeInto o p.wireSteps bs := by
    rw [decodeInto_eq_decodeBy hplans]
    simp only [decodeBy, ho.1, hp]
  have hfails : c.decodeSteps c.decodeInto o p.wireSteps bs =
      ⟨(c.decodeInto o bs).object, .error error⟩ := by rw [← hsteps, ← herror]
  obtain ⟨before, step, after, o₁, rest₁, hsplit, hbefore, hstep⟩ :=
    exists_of_decodeSteps_error hfails
  refine ⟨p, before, step, after, o₁, rest₁, hp, hsplit, hbefore, hstep, fun f hf => ?_⟩
  have hlast : (c.decodeStep c.decodeInto o₁ step rest₁).object.own? f.name = o₁.own? f.name := by
    refine own?_decodeStep (fun g hg => ?_) rest₁
    have hsplit' : p.wireSteps = (before ++ [step]) ++ after := by simp [hsplit]
    exact name_ne_of_wireSteps (hs hp) hsplit' (by simp [hg]) hf
  have hfirst : (c.decodeSteps c.decodeInto o before bs).object.own? f.name = o.own? f.name := by
    refine own?_decodeSteps (fun g hg => ?_) bs
    exact name_ne_of_wireSteps (hs hp) hsplit hg (List.mem_cons_of_mem _ hf)
  rw [hstep] at hlast
  rw [hbefore] at hfirst
  rw [hlast, hfirst]

/-- The input ends in the second item of the inherited list: the number of items is the new one,
and both lists are the old ones. -/
theorem decodeInto_interrupted_sample : ∃ c, c = ofRegistry Registry.sample .big ∧
    c.decodeInto (.sampleDerived 5 7) [2, 0] = ⟨.sampleDerived 2 7, .error .endOfInput⟩ ∧
    c.Conforms "B" (.sampleDerived 2 7) ∧ ∃ p before step after o₁ rest₁,
      c.plan "B" = .ok p ∧ p.wireSteps = before ++ step :: after ∧
      c.decodeSteps c.decodeInto (.sampleDerived 5 7) before [2, 0] = ⟨o₁, .ok rest₁⟩ ∧
      c.decodeStep c.decodeInto o₁ step rest₁ = ⟨.sampleDerived 2 7, .error .endOfInput⟩ ∧
      ∀ f, .field f ∈ after →
        (Object.sampleDerived 2 7).own? f.name = (Object.sampleDerived 5 7).own? f.name := by
  obtain ⟨loaded, hloaded, hr⟩ := Schema.check_sample
  have hparts : ((ofRegistry Registry.sample .big).decodeInto (.sampleDerived 5 7) [2, 0]).object =
        .sampleDerived 2 7 ∧
      ((ofRegistry Registry.sample .big).decodeInto (.sampleDerived 5 7) [2, 0]).rest =
        .error .endOfInput := by
    rw [ofRegistry_sample]
    decide +kernel
  have hdecode : (ofRegistry Registry.sample .big).decodeInto (.sampleDerived 5 7) [2, 0] =
      ⟨.sampleDerived 2 7, .error .endOfInput⟩ := by rw [← hparts.1, ← hparts.2]
  obtain ⟨hconforms, hfails⟩ :=
    decodeInto_interrupted hloaded (by rw [hr]) conforms_sampleDerived [2, 0]
  rw [hdecode] at hconforms hfails
  exact ⟨_, rfl, hdecode, hconforms, hfails _ rfl⟩

end Codec

end WireSchema
