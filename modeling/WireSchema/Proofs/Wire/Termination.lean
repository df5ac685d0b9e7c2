import WireSchema.Proofs.Wire.Recursion

namespace WireSchema

open Outcome

open Relation (ReflTransGen TransGen)

namespace Registry

variable {r : Registry}

theorem rank_pos {a b : String} (hab : r.Embeds a b) (hb : r.contains b) : 0 < r.rank a := by
  obtain ⟨c, hc⟩ := contains_iff.1 hb
  obtain ⟨hmem, rfl⟩ := find?_eq_some.1 hc
  have hbelow : c.name ∈ r.below a := mem_below.2 (.single hab)
  exact List.length_pos_of_mem (List.mem_filter.2 ⟨List.mem_map_of_mem hmem, by simpa using hbelow⟩)

end Registry

theorem Built.contains_of_embeds {r : Registry} {d : ClassDef} {p : Plan} (hb : Built r d p)
    (hd : d ∈ r.classes) {target : String} (h : r.Embeds d.name target) : r.contains target := by
  obtain ⟨d', hd', hparent | ⟨f, hf, htype⟩⟩ := h
  · rw [Registry.find?_eq_some.2 ⟨hd, rfl⟩] at hd'
    cases hd'
    exact hb.known target hparent
  · rw [Registry.find?_eq_some.2 ⟨hd, rfl⟩] at hd'
    cases hd'
    obtain ⟨i, hi⟩ := List.mem_iff_getElem?.1 hf
    obtain ⟨l, hl, -⟩ := hb.field_of_class hi
    rcases htype with htype | ⟨length, text, htype⟩
    · rw [htype] at hl
      cases hl with
      | nested known => exact known
    · rw [htype] at hl
      cases hl with
      | fixedNested known => exact known

theorem Built.contains_of_layout {r : Registry} {d : ClassDef} {p : Plan} (hb : Built r d p)
    {f : FieldPlan} (hf : f ∈ p.fields) {target : String} (h : f.layout.className? = some target) :
    r.contains target := by
  obtain ⟨i, hi⟩ := List.mem_iff_getElem?.1 hf
  obtain ⟨g, -, hlayout, -, -⟩ := hb.field_of_plan hi
  generalize f.layout = l at hlayout h
  generalize g.type = type at hlayout
  cases hlayout with
  | nested known | fixedNested known | nestedList known _ =>
      cases h
      exact known
  | scalar | lengthOf | fixedScalars | scalarList => cases h

namespace Codec

section Making

variable (c : Codec)

/-- One step of making an object of the class `name`: it has an object of the class `target` as its
inherited part, in a field or in a fixed list. -/
def Makes (name target : String) : Prop :=
  ∃ p, c.plan name = .ok p ∧ (p.parent = some target ∨ ∃ f ∈ p.fields,
    f.layout = .nested target ∨ ∃ n, f.layout = .fixedNested target n)

def assemble (make : String → Except CodecError Object) (className : String) :
    Except CodecError Object := do
  let p ← c.plan className
  let parent ← p.parent.mapM make
  let fields ← p.fields.mapM fun f => do
    return (f.name, ← initial make className f.name f.init)
  p.assignments.foldlM (assign className) (.mk className parent fields)

theorem instantiateWithin_succ (depth : Nat) (name : String) :
    c.instantiateWithin (depth + 1) name = c.assemble (c.instantiateWithin depth) name := rfl

variable {c} {make make' : String → Except CodecError Object} {name : String}

theorem initial_congr {field : String} {f : FieldPlan}
    (h : ∀ target, (f.layout = .nested target ∨ ∃ n, f.layout = .fixedNested target n) →
      make target = make' target) :
    initial make name field f.init = initial make' name field f.init := by
  rw [FieldPlan.init]
  cases hl : f.layout with
  | scalar t | lengthOf t _ => cases f.default <;> rfl
  | nested target => simp only [initial, h target (.inl hl)]
  | fixedNested target n => simp only [initial, h target (.inr ⟨n, hl⟩)]
  | fixedScalars t n | scalarList t count | nestedList target count => rfl

theorem plan_ne_tooDeep (c : Codec) (name target : String) :
    c.plan name ≠ .error (.tooDeep target) := by
  intro h
  rw [plan] at h
  split at h <;> cases h

theorem literal_ne_tooDeep {field target : String} {t : Primitive} {l : Literal} :
    literal name field t l ≠ .error (.tooDeep target) := by
  intro h
  rw [literal] at h
  split at h <;> cases h

theorem exists_of_initial_tooDeep {field target : String} {f : FieldPlan}
    (h : initial make name field f.init = .error (.tooDeep target)) :
    ∃ part, (f.layout = .nested part ∨ ∃ n, f.layout = .fixedNested part n) ∧
      make part = .error (.tooDeep target) := by
  rw [FieldPlan.init] at h
  cases hl : f.layout with
  | scalar t | lengthOf t _ =>
      rw [hl] at h
      cases hd : f.default with
      | none =>
          rw [hd] at h
          cases h
      | some l =>
          rw [hd] at h
          exact absurd h literal_ne_tooDeep
  | nested part =>
      rw [hl] at h
      rcases bind_eq_error.1 h with h | ⟨q, -, h⟩
      · exact ⟨part, .inl rfl, h⟩
      · cases h
  | fixedNested part n =>
      rw [hl] at h
      simp only [initial] at h
      split at h
      · cases h
      · rcases bind_eq_error.1 h with h | ⟨q, -, h⟩
        · exact ⟨part, .inr ⟨n, rfl⟩, h⟩
        · cases h
  | fixedScalars t n | scalarList t count | nestedList part count =>
      rw [hl] at h
      cases h

theorem assignments_ne_tooDeep {as : List Assignment} {o : Object} {target : String} :
    as.foldlM (assign name) o ≠ .error (.tooDeep target) := by
  induction as generalizing o with
  | nil =>
      intro h
      cases h
  | cons a as ih =>
      intro h
      rw [List.foldlM_cons] at h
      rcases bind_eq_error.1 h with h | ⟨o', -, h⟩
      · rcases bind_eq_error.1 h with h | ⟨v, -, h⟩
        · exact literal_ne_tooDeep h
        · split at h <;> cases h
      · exact ih h

theorem assemble_congr (h : ∀ target, c.Makes name target → make target = make' target) :
    c.assemble make name = c.assemble make' name := by
  simp only [assemble]
  cases hp : c.plan name with
  | error e => rfl
  | ok p =>
      have hparent : p.parent.mapM make = p.parent.mapM make' := by
        cases hname : p.parent with
        | none => rfl
        | some target => simp only [Option.mapM_some, h target ⟨p, hp, .inl hname⟩]
      have hfields (f : FieldPlan) (hf : f ∈ p.fields) :
          initial make name f.name f.init = initial make' name f.name f.init :=
        initial_congr fun target hl => h target ⟨p, hp, .inr ⟨f, hf, hl⟩⟩
      rw [ok_bind, ok_bind, hparent]
      rw [mapM_congr fun f hf => by rw [hfields f hf]]

theorem exists_of_assemble_tooDeep {target : String}
    (h : c.assemble make name = .error (.tooDeep target)) :
    ∃ part, c.Makes name part ∧ make part = .error (.tooDeep target) := by
  rcases bind_eq_error.1 h with h | ⟨p, hp, h⟩
  · exact absurd h (plan_ne_tooDeep c name target)
  rcases bind_eq_error.1 h with h | ⟨parent, -, h⟩
  · cases hname : p.parent with
    | none =>
        rw [hname] at h
        cases h
    | some part =>
        rw [hname, Option.mapM_some] at h
        exact ⟨part, ⟨p, hp, .inl hname⟩, Outcome.map_eq_error.1 h⟩
  rcases bind_eq_error.1 h with h | ⟨fields, -, h⟩
  · obtain ⟨f, hf, h⟩ := mapM_eq_error h
    rcases bind_eq_error.1 h with h | ⟨v, -, h⟩
    · obtain ⟨part, hl, hmake⟩ := exists_of_initial_tooDeep h
      exact ⟨part, ⟨p, hp, .inr ⟨f, hf, hl⟩⟩, hmake⟩
    · cases h
  · exact absurd h assignments_ne_tooDeep

variable {r : Registry}

theorem not_transGen_embeds (hc : c.plans = Plan.all r) {p : Plan} (hp : c.plan name = .ok p) :
    ¬TransGen r.Embeds name name := by
  obtain ⟨d, hd, rfl, hb⟩ := built_of_plan hc hp
  rw [← Registry.selfEmbedding?_isSome hd, hb.embedding]
  simp

theorem rank_lt_of_plan (hc : c.plans = Plan.all r) {target : String} {p : Plan}
    (h : r.Embeds name target) (hp : c.plan target = .ok p) : r.rank target < r.rank name := by
  obtain ⟨d, hd, hname, -⟩ := built_of_plan hc hp
  exact Registry.rank_lt h (Registry.contains_iff.2 ⟨d, Registry.find?_eq_some.2 ⟨hd, hname⟩⟩)
    (not_transGen_embeds hc hp)

theorem rank_pos_of_plan (hc : c.plans = Plan.all r) {target : String} {p : Plan}
    (hp : c.plan name = .ok p) (h : r.Embeds name target) : 0 < r.rank name := by
  obtain ⟨d, hd, rfl, hb⟩ := built_of_plan hc hp
  exact Registry.rank_pos h (hb.contains_of_embeds hd h)

theorem embeds_of_makes (hc : c.plans = Plan.all r) {target : String} (h : c.Makes name target) :
    r.Embeds name target := by
  obtain ⟨p, hp, hpart⟩ := h
  obtain ⟨d, hd, rfl, hb⟩ := built_of_plan hc hp
  rcases hpart with hparent | ⟨f, hf, hl | ⟨n, hl⟩⟩
  · exact ⟨d, Registry.find?_eq_some.2 ⟨hd, rfl⟩, .inl (hb.parent ▸ hparent)⟩
  · exact embeds_of_layout hd hb hf (by rw [hl]; rfl) (by rw [hl]; rfl)
  · exact embeds_of_layout hd hb hf (by rw [hl]; rfl) (by rw [hl]; rfl)

theorem not_transGen_makes (hc : c.plans = Plan.all r) : ¬TransGen c.Makes name name := by
  intro h
  obtain ⟨_, ⟨p, hp, -⟩, -⟩ := TransGen.head'_iff.1 h
  exact not_transGen_embeds hc hp (TransGen.mono (fun _ _ => embeds_of_makes hc) _ _ h)

def Makeable (c : Codec) (r : Registry) (depth : Nat) (name : String) : Prop :=
  0 < depth ∧ ∀ p, c.plan name = .ok p → r.rank name < depth

theorem Makeable.part (hc : c.plans = Plan.all r) {depth : Nat} {target : String}
    (h : c.Makeable r (depth + 1) name) (hmakes : c.Makes name target) :
    c.Makeable r depth target := by
  obtain ⟨p, hp, -⟩ := id hmakes
  have hembeds := embeds_of_makes hc hmakes
  have hrank := h.2 p hp
  have hpos := rank_pos_of_plan hc hp hembeds
  refine ⟨by omega, fun p' hp' => ?_⟩
  have hlt := rank_lt_of_plan hc hembeds hp'
  omega

theorem instantiateWithin_add_one (hc : c.plans = Plan.all r) {depth : Nat}
    (h : c.Makeable r depth name) :
    c.instantiateWithin (depth + 1) name = c.instantiateWithin depth name := by
  induction depth generalizing name with
  | zero => exact absurd h.1 (by omega)
  | succ depth ih =>
      rw [instantiateWithin_succ, instantiateWithin_succ]
      exact assemble_congr fun target hmakes => ih (h.part hc hmakes)

theorem instantiateWithin_ne_tooDeep (hc : c.plans = Plan.all r) {depth : Nat} {target : String}
    (h : c.Makeable r depth name) : c.instantiateWithin depth name ≠ .error (.tooDeep target) := by
  induction depth generalizing name with
  | zero => exact absurd h.1 (by omega)
  | succ depth ih =>
      intro hdeep
      obtain ⟨part, hmakes, hdeep⟩ := exists_of_assemble_tooDeep hdeep
      exact ih (h.part hc hmakes) hdeep

theorem acc_makes (hc : c.plans = Plan.all r) {depth : Nat} (h : c.Makeable r depth name) :
    Acc (flip c.Makes) name := by
  induction depth generalizing name with
  | zero => exact absurd h.1 (by omega)
  | succ depth ih => exact .intro _ fun target hmakes => ih (h.part hc hmakes)

theorem makeable_length (hc : c.plans = Plan.all r) (name : String) :
    c.Makeable r (c.plans.length + 1) name := by
  refine ⟨by omega, fun p _ => ?_⟩
  have hle := r.rank_le name
  have hlength : c.plans.length = r.classes.length := by simp [hc, Plan.all]
  omega

theorem instantiate_ne_tooDeep (hc : c.plans = Plan.all r) (name target : String) :
    c.instantiate name ≠ .error (.tooDeep target) :=
  instantiateWithin_ne_tooDeep hc (makeable_length hc name)

/-- The depth that bounds the recursion does not show in its result. -/
theorem instantiate_eq_assemble (hc : c.plans = Plan.all r) (name : String) :
    c.instantiate name = c.assemble c.instantiate name := by
  rw [instantiate, instantiateWithin_succ]
  refine assemble_congr fun target hmakes => ?_
  exact (instantiateWithin_add_one hc ((makeable_length hc name).part hc hmakes)).symm

end Making

section Decoding

variable {c : Codec} {r : Registry} {decode : Object → Bytes → Decoded} {o q : Object}
  {bs rest : Bytes} {listed : Bool}

theorem exists_of_wireSteps {p : Plan} {f : FieldPlan} {pre post : List WireStep}
    (h : p.wireSteps = pre ++ .field f :: post) : ∃ fs gs, p.fields = fs ++ f :: gs ∧
      pre = p.parent.toList.map .parent ++ fs.map .field := by
  rw [Plan.wireSteps] at h
  rcases List.append_eq_append_iff.1 h with ⟨mid, rfl, hmid⟩ | ⟨mid, hmid, hpost⟩
  · obtain ⟨fs, gs, hfields, rfl, hgs⟩ := List.map_eq_append_iff.1 hmid
    obtain ⟨f', gs, rfl, hf, -⟩ := List.map_eq_cons_iff.1 hgs
    cases hf
    exact ⟨fs, gs, hfields, rfl⟩
  · cases mid with
    | nil =>
        obtain ⟨f', gs, hfields, hf, -⟩ := List.map_eq_cons_iff.1 hpost.symm
        cases hf
        exact ⟨[], gs, hfields, by simpa using hmid.symm⟩
    | cons step mid =>
        obtain ⟨rfl, -⟩ := List.cons_eq_cons.1 hpost
        have hmem : WireStep.field f ∈ p.parent.toList.map WireStep.parent := by simp [hmid]
        simp at hmem

/-- Before a variable list is decoded, the number of its elements has been taken from the input: by
a step before the list, or with the inherited part. -/
theorem length_lt_of_nestedList (hc : c.plans = Plan.all r) (h : Regular r decode) {depth : Nat}
    (ho : o.Grounded (Object.Sited r) depth) {p : Plan} (hp : c.plan o.className = .ok p)
    {pre post : List WireStep} {f : FieldPlan} (hsteps : p.wireSteps = pre ++ .field f :: post)
    {name : String} {count : CountSource} (hl : f.layout = .nestedList name count) {o' : Object}
    (hpre : c.decodeSteps decode o pre bs = ⟨o', .ok rest⟩) : rest.length < bs.length := by
  obtain ⟨d, hd, hname, hb⟩ := built_of_plan hc hp
  obtain ⟨fs, gs, hfields, rfl⟩ := exists_of_wireSteps hsteps
  have hf : p.fields[fs.length]? = some f := by simp [hfields]
  obtain ⟨list, hlist, hlayout, -, -⟩ := hb.field_of_plan hf
  rw [hl] at hlayout
  obtain ⟨element, n, text, htype, found, t, hfound, hafter, hinteger, rfl⟩ := hlayout.counted rfl
  have hprimitive : found.field.primitive?.isSome := by
    rw [(Option.filter_eq_some_iff.1 hinteger).1]
    rfl
  obtain ⟨hline, hfield, -⟩ := Registry.resolve?_eq_some.1 hfound
  have hancestor := Registry.ancestor?_of_lineage hline
  cases hdepth : found.depth with
  | zero =>
      obtain ⟨j, hindex, hj⟩ :=
        ClassDef.fieldIndex?_of_field? (Registry.field?_of_resolve? hfound hdepth)
      have hlt : j < fs.length := by
        have hle : ¬fs.length < j := fun hlt => hafter ⟨hdepth, by simp [hindex, hlt]⟩
        have hne : j ≠ fs.length := by
          rintro rfl
          rw [hlist] at hj
          cases hj
          simp [Field.primitive?, Field.typeName?, htype] at hprimitive
        omega
      obtain ⟨fp, t', hfp, hnotList, hscalar⟩ := exists_plan_of_primitive hb hj hprimitive
      rw [hfields, List.getElem?_append_left hlt] at hfp
      have hstep : WireStep.field fp ∈ p.parent.toList.map .parent ++ fs.map .field := by
        simp [List.mem_of_getElem? hfp]
      exact length_lt_of_mem h hstep (length_lt_of_scalar hnotList hscalar) hpre
  | succ k =>
      rw [hdepth] at hancestor
      obtain ⟨b, hb', hancestor⟩ := Option.bind_eq_some_iff.1 hancestor
      obtain ⟨target, htarget, hfind⟩ := Option.bind_eq_some_iff.1 hb'
      obtain ⟨-, rfl⟩ := Registry.find?_eq_some.1 hfind
      rw [hb.parent.trans htarget] at hpre
      have hfindD : r.find? o.className = some d := Registry.find?_eq_some.2 ⟨hd, hname⟩
      exact length_lt_of_parent h ho hfindD hb' ⟨b, found.owner, found.field, hfind, hancestor,
        List.mem_of_find?_eq_some hfield, hprimitive⟩ hpre

theorem length_le_of_readObjects (h : Regular r decode) {name : String} {i : Nat} {v : Value}
    (hread : readMany (c.readObject decode name) [] i bs = .ok (v, rest)) :
    rest.length ≤ bs.length :=
  ((delimited_readMany (c.delimited_readObject h.delimited name) [] i).suffix hread).length_le

theorem grounded_of_decodeSteps (h : Regular r decode) {P : Object → Prop} {depth : Nat}
    (hP : Object.OfClasses P) (ho : o.Grounded P depth) {steps : List WireStep} {o' : Object}
    (hsteps : c.decodeSteps decode o steps bs = ⟨o', .ok rest⟩) : o'.Grounded P depth := by
  have hkept := (h.keeps hP).decodeSteps (c := c) hP ho steps bs
  rwa [hsteps] at hkept

namespace Calls

theorem length_le (h : Regular r decode) (hcall : c.Calls decode listed (o, bs) (q, rest)) :
    rest.length ≤ bs.length := by
  obtain ⟨p, -, pre, step, post, o', bs', -, hpre, hstep⟩ := hcall
  have hle := length_le_of_decodeSteps h hpre
  cases hstep with
  | parent found => exact hle
  | nested layout found => exact hle
  | slot layout lt before made | element layout counted lt before made =>
      exact Nat.le_trans (length_le_of_readObjects h before) hle

theorem length_lt (hc : c.plans = Plan.all r) (h : Regular r decode) {depth : Nat}
    (ho : o.Grounded (Object.Sited r) depth) (hcall : c.Calls decode true (o, bs) (q, rest)) :
    rest.length < bs.length := by
  obtain ⟨p, hp, pre, step, post, o', bs', hsteps, hpre, hstep⟩ := hcall
  cases hstep with
  | element layout counted lt before made =>
      have hlt := length_lt_of_nestedList hc h ho hp hsteps layout hpre
      exact Nat.lt_of_le_of_lt (length_le_of_readObjects h before) hlt

theorem held_or_new (h : Regular r decode) (hcall : c.Calls decode listed (o, bs) (q, rest)) :
    (listed = false ∧ ∀ {P : Object → Prop} {depth : Nat}, Object.OfClasses P →
      o.Grounded P (depth + 1) → q.Grounded P depth) ∨ ∃ name, c.instantiate name = .ok q := by
  obtain ⟨p, -, pre, step, post, o', bs', -, hpre, hstep⟩ := hcall
  have hheld (hq : q ∈ o'.held) {P : Object → Prop} {depth : Nat} (hP : Object.OfClasses P)
      (ho : o.Grounded P (depth + 1)) : q.Grounded P depth := by
    cases grounded_of_decodeSteps h hP ho hpre with
    | intro here held => exact held q hq
  cases hstep with
  | parent found => exact .inl ⟨rfl, hheld (Object.mem_held.2 (.inl found))⟩
  | nested layout found =>
      exact .inl ⟨rfl, hheld (Object.mem_held.2 (.inr (Object.mem_ownObjects_of_own? found)))⟩
  | slot layout lt before made => exact .inr ⟨_, made⟩
  | element layout counted lt before made => exact .inr ⟨_, made⟩

/-- A call for anything but an element of a variable list goes along a part of the class. -/
theorem embeds (hc : c.plans = Plan.all r) (h : Regular r decode) {depth : Nat}
    (ho : o.Grounded (Object.Sited r) depth) (hcall : c.Calls decode false (o, bs) (q, rest)) :
    r.Embeds o.className q.className := by
  obtain ⟨p, hp, pre, step, post, o', bs', hsteps, hpre, hstep⟩ := hcall
  have hsited := (grounded_of_decodeSteps h (Object.ofClasses_sited r) ho hpre).here
  have hclass : o'.className = o.className := by
    have hkept : (c.decodeSteps decode o pre bs).object.className = o.className :=
      c.className_decodeSteps o pre bs
    rwa [hpre] at hkept
  rw [← hclass]
  cases hstep with
  | parent found => exact hsited.embeds (Object.mem_held.2 (.inl found))
  | nested layout found =>
      exact hsited.embeds (Object.mem_held.2 (.inr (Object.mem_ownObjects_of_own? found)))
  | @slot f name n i v q rest layout lt before made =>
      have hf : f ∈ p.fields := by
        obtain ⟨fs, gs, hfields, -⟩ := exists_of_wireSteps hsteps
        simp [hfields]
      obtain ⟨d, hd, hname, hb⟩ := built_of_plan hc hp
      rw [hclass, ← hname, (conforms_of_instantiate hc made).1]
      exact embeds_of_layout hd hb hf (by rw [layout]; rfl) (by rw [layout]; rfl)

theorem sited (hc : c.plans = Plan.all r) (h : Regular r decode)
    (ho : ∃ depth, o.Grounded (Object.Sited r) depth)
    (hcall : c.Calls decode listed (o, bs) (q, rest)) :
    ∃ depth, q.Grounded (Object.Sited r) depth := by
  obtain ⟨depth, ho⟩ := ho
  rcases hcall.held_or_new h with ⟨-, hheld⟩ | ⟨name, hnew⟩
  · cases depth with
    | zero => cases ho
    | succ depth => exact ⟨depth, hheld (Object.ofClasses_sited r) ho⟩
  · exact ⟨_, grounded_of_conforms hc (conforms_of_instantiate hc hnew)⟩

end Calls

/-- A depth at which decoding into an object that is built as the classes say finds its end. -/
def Reaches (c : Codec) (r : Registry) (depth : Nat) (o : Object) (bs : Bytes) : Prop :=
  (∃ n, o.Grounded (Object.Sited r) n) ∧ 0 < depth ∧ ∀ p, c.plan o.className = .ok p →
    r.rank o.className + 1 + bs.length * (r.classes.length + 1) ≤ depth

/-- The same for any object: what it holds by value may be of any class, but new objects are built
as the classes say. -/
def ReachesAny (r : Registry) (depth : Nat) (o : Object) (bs : Bytes) : Prop :=
  ∃ n, o.Grounded (fun _ => True) n ∧ n + (bs.length + 1) * (r.classes.length + 1) ≤ depth

theorem reaches_of_new (hc : c.plans = Plan.all r) {depth : Nat} {name : String}
    (hnew : c.instantiate name = .ok q) (hle : (rest.length + 1) * (r.classes.length + 1) ≤ depth) :
    c.Reaches r depth q rest := by
  have hrank := r.rank_le q.className
  rw [Nat.succ_mul] at hle
  refine ⟨⟨_, grounded_of_conforms hc (conforms_of_instantiate hc hnew)⟩, by omega, fun p _ => ?_⟩
  omega

theorem Reaches.call (hc : c.plans = Plan.all r) (h : Regular r decode) {depth : Nat}
    (ho : c.Reaches r (depth + 1) o bs) (hcall : c.Calls decode listed (o, bs) (q, rest)) :
    c.Reaches r depth q rest := by
  obtain ⟨⟨n, hn⟩, -, hdepth⟩ := ho
  obtain ⟨p, hp, -⟩ := id hcall
  have hdepth := hdepth p hp
  have hsited := hcall.sited hc h ⟨n, hn⟩
  cases listed with
  | false =>
      have hembeds := hcall.embeds hc h hn
      have hbytes := Nat.mul_le_mul_right (r.classes.length + 1) (hcall.length_le h)
      have hpos : 0 < r.rank o.className := rank_pos_of_plan hc hp hembeds
      refine ⟨hsited, by omega, fun p' hp' => ?_⟩
      have hrank := rank_lt_of_plan hc hembeds hp'
      omega
  | true =>
      have hbytes := Nat.mul_le_mul_right (r.classes.length + 1) (hcall.length_lt hc h hn)
      rw [Nat.succ_mul] at hbytes
      have hrank := r.rank_le q.className
      exact ⟨hsited, by omega, fun p' _ => by omega⟩

theorem ReachesAny.call (hc : c.plans = Plan.all r) (h : Regular r decode) {depth : Nat}
    (ho : ReachesAny r (depth + 1) o bs) (hcall : c.Calls decode listed (o, bs) (q, rest)) :
    c.Reaches r depth q rest ∨ ReachesAny r depth q rest := by
  obtain ⟨n, hn, hdepth⟩ := ho
  cases n with
  | zero => cases hn
  | succ n =>
      have hbytes := Nat.mul_le_mul_right (r.classes.length + 1)
        (Nat.add_le_add_right (hcall.length_le h) 1)
      rcases hcall.held_or_new h with ⟨-, hheld⟩ | ⟨name, hnew⟩
      · exact .inr ⟨n, hheld Object.ofClasses_true hn, by omega⟩
      · exact .inl (reaches_of_new hc hnew (by omega))

def Enough (c : Codec) (r : Registry) (depth : Nat) (o : Object) (bs : Bytes) : Prop :=
  c.Reaches r depth o bs ∨ ReachesAny r depth o bs

theorem Enough.call (hc : c.plans = Plan.all r) (h : Regular r decode) {depth : Nat}
    (ho : c.Enough r (depth + 1) o bs) (hcall : c.Calls decode listed (o, bs) (q, rest)) :
    c.Enough r depth q rest := by
  rcases ho with ho | ho
  · exact .inl (ho.call hc h hcall)
  · exact ho.call hc h hcall

theorem not_enough_zero : ¬c.Enough r 0 o bs := by
  rintro (⟨-, hpos, -⟩ | ⟨n, hn, hdepth⟩)
  · omega
  · rw [Nat.succ_mul] at hdepth
    omega

theorem Enough.mono {depth depth' : Nat} (h : c.Enough r depth o bs) (hle : depth ≤ depth') :
    c.Enough r depth' o bs := by
  rcases h with ⟨hn, hpos, hdepth⟩ | ⟨n, hn, hdepth⟩
  · exact .inl ⟨hn, by omega, fun p hp => Nat.le_trans (hdepth p hp) hle⟩
  · exact .inr ⟨n, hn, by omega⟩

theorem decodeWithin_succ (c : Codec) (depth : Nat) (o : Object) (bs : Bytes) :
    c.decodeWithin (depth + 1) o bs = c.decodeBy (c.decodeWithin depth) o bs := rfl

theorem decodeWithin_add_one (hc : c.plans = Plan.all r) {depth : Nat} (h : c.Enough r depth o bs) :
    c.decodeWithin (depth + 1) o bs = c.decodeWithin depth o bs := by
  induction depth generalizing o bs with
  | zero => exact absurd h not_enough_zero
  | succ depth ih =>
      rw [c.decodeWithin_succ (depth + 1), c.decodeWithin_succ depth]
      refine (decodeBy_congr fun listed q rest hcall => ?_).symm
      exact (ih (h.call hc (regular_decodeWithin hc depth) hcall)).symm

theorem decodeWithin_of_le (hc : c.plans = Plan.all r) {depth depth' : Nat}
    (h : c.Enough r depth o bs) (hle : depth ≤ depth') :
    c.decodeWithin depth' o bs = c.decodeWithin depth o bs := by
  induction depth', hle using Nat.le_induction with
  | base => rfl
  | succ depth' hle ih => rw [decodeWithin_add_one hc (h.mono hle), ih]

theorem rest_decodeWithin_ne_tooDeep (hc : c.plans = Plan.all r) {depth : Nat} {target : String}
    (h : c.Enough r depth o bs) : (c.decodeWithin depth o bs).rest ≠ .error (.tooDeep target) := by
  induction depth generalizing o bs with
  | zero => exact absurd h not_enough_zero
  | succ depth ih =>
      intro hdeep
      rw [decodeWithin] at hdeep
      split at hdeep
      next e hp =>
        cases hdeep
        exact plan_ne_tooDeep c o.className target hp
      next p hp =>
        obtain ⟨listed, q, rest, hcall, hdeep⟩ :=
          exists_of_decodeSteps_tooDeep (instantiate_ne_tooDeep hc) hdeep
        have hcall : c.Calls (c.decodeWithin depth) listed (o, bs) (q, rest) := ⟨p, hp, hcall⟩
        exact ih (h.call hc (regular_decodeWithin hc depth) hcall) hdeep

theorem enough_decodeInto (hc : c.plans = Plan.all r) (o : Object) (bs : Bytes) :
    c.Enough r (o.height + (bs.length + 1) * (c.plans.length + 1)) o bs := by
  refine .inr ⟨o.height, Object.grounded_of (Q := fun _ => True) (fun _ _ => by simp) trivial, ?_⟩
  have hlength : c.plans.length = r.classes.length := by simp [hc, Plan.all]
  rw [hlength]

theorem decodeWithin_eq_decodeInto (hc : c.plans = Plan.all r) {depth : Nat}
    (h : c.Enough r depth o bs) : c.decodeWithin depth o bs = c.decodeInto o bs := by
  have hinto : c.Enough r (o.height + (bs.length + 2) * (c.plans.length + 1)) o bs :=
    (enough_decodeInto hc o bs).mono (by rw [Nat.succ_mul (bs.length + 1)]; omega)
  rcases Nat.le_total depth (o.height + (bs.length + 2) * (c.plans.length + 1)) with hle | hle
  · exact (decodeWithin_of_le hc h hle).symm
  · exact decodeWithin_of_le hc hinto hle

theorem decodeInto_eq_decodeBy (hc : c.plans = Plan.all r) (o : Object) (bs : Bytes) :
    c.decodeInto o bs = c.decodeBy c.decodeInto o bs := by
  have henough := enough_decodeInto hc o bs
  rw [← decodeWithin_eq_decodeInto hc (henough.mono (Nat.le_succ _)), decodeWithin_succ]
  refine decodeBy_congr fun listed q rest hcall => ?_
  have hnext := (henough.mono (Nat.le_succ _)).call hc (regular_decodeWithin hc _) hcall
  exact decodeWithin_eq_decodeInto hc hnext

theorem rest_decodeInto_ne_tooDeep (hc : c.plans = Plan.all r) (o : Object) (bs : Bytes)
    (target : String) : (c.decodeInto o bs).rest ≠ .error (.tooDeep target) := by
  rw [← decodeWithin_eq_decodeInto hc (enough_decodeInto hc o bs)]
  exact rest_decodeWithin_ne_tooDeep hc (enough_decodeInto hc o bs)

theorem exists_depth (hc : c.plans = Plan.all r) (o : Object) (bs bs' : Bytes) : ∃ depth,
    c.decodeWithin depth o bs = c.decodeInto o bs ∧
      c.decodeWithin depth o bs' = c.decodeInto o bs' := by
  refine ⟨_, decodeWithin_eq_decodeInto hc ((enough_decodeInto hc o bs).mono (Nat.le_max_left _ _)),
    decodeWithin_eq_decodeInto hc ((enough_decodeInto hc o bs').mono (Nat.le_max_right _ _))⟩

theorem delimited_decodeInto (hc : c.plans = Plan.all r) (o : Object) :
    Delimited fun bs => (c.decodeInto o bs).outcome := by
  intro bs o' rest h
  -- The part that is taken does not depend on the depth: it is what stands before the rest.
  have htaken (bs' : Bytes) : ∃ depth taken, c.decodeWithin depth o bs' = c.decodeInto o bs' ∧
      bs = taken ++ rest ∧
      (∀ other, (c.decodeWithin depth o (taken ++ other)).outcome = .ok (o', other)) ∧
      ∀ cut, cut <+: taken → cut ≠ taken →
        ∃ e, (c.decodeWithin depth o cut).outcome = .error e ∧ e.IsShortInput := by
    obtain ⟨depth, hbs, hbs'⟩ := exists_depth hc o bs bs'
    obtain ⟨taken, hsplit, hsame, hshort⟩ := c.delimited_decodeWithin depth o bs o' rest (by
      simpa only [hbs] using h)
    exact ⟨depth, taken, hbs', hsplit, hsame, hshort⟩
  obtain ⟨-, taken, -, rfl, -, -⟩ := htaken []
  refine ⟨taken, rfl, fun other => ?_, fun cut hcut hne => ?_⟩
  · obtain ⟨depth, taken', hdepth, hsplit, hsame, -⟩ := htaken (taken ++ other)
    obtain rfl := List.append_cancel_right hsplit
    have hsame := hsame other
    rwa [hdepth] at hsame
  · obtain ⟨depth, taken', hdepth, hsplit, -, hshort⟩ := htaken cut
    obtain rfl := List.append_cancel_right hsplit
    have hshort := hshort cut hcut hne
    rwa [hdepth] at hshort

theorem regular_decodeInto (hc : c.plans = Plan.all r) : Regular r c.decodeInto where
  delimited := delimited_decodeInto hc
  keeps hP := ⟨fun o bs => (c.keeps_decodeWithin hP _).className o bs,
    fun bs ho => (c.keeps_decodeWithin hP _).grounded bs ho⟩
  consumes hq hnumber hdecode := (regular_decodeWithin hc _).consumes hq hnumber hdecode

def Recurs (c : Codec) (x y : Object × Bytes) : Prop :=
  ∃ listed, c.Calls c.decodeInto listed x y

theorem acc_recurs (hc : c.plans = Plan.all r) {depth : Nat} (h : c.Enough r depth o bs) :
    Acc (flip c.Recurs) (o, bs) := by
  induction depth generalizing o bs with
  | zero => exact absurd h not_enough_zero
  | succ depth ih =>
      refine .intro _ ?_
      rintro ⟨q, rest⟩ ⟨listed, hcall⟩
      exact ih (h.call hc (regular_decodeInto hc) hcall)

theorem wellFounded_recurs (hc : c.plans = Plan.all r) : WellFounded (flip c.Recurs) :=
  ⟨fun x => acc_recurs hc (enough_decodeInto hc x.1 x.2)⟩

theorem sited_of_recurs (hc : c.plans = Plan.all r) {x y : Object × Bytes}
    (h : ReflTransGen c.Recurs x y) (hx : ∃ depth, x.1.Grounded (Object.Sited r) depth) :
    ∃ depth, y.1.Grounded (Object.Sited r) depth := by
  induction h with
  | refl => exact hx
  | tail _ hcall ih =>
      obtain ⟨listed, hcall⟩ := hcall
      exact hcall.sited hc (regular_decodeInto hc) ih

/-- Decoding that goes on from an object has taken some of its input, or has only gone along the
parts of classes. -/
theorem length_lt_or_embeds (hc : c.plans = Plan.all r) {x y : Object × Bytes}
    (h : TransGen c.Recurs x y) (hx : ∃ depth, x.1.Grounded (Object.Sited r) depth) :
    y.2.length < x.2.length ∨
      y.2.length ≤ x.2.length ∧ TransGen r.Embeds x.1.className y.1.className := by
  have hone {u v : Object × Bytes} (hu : ∃ depth, u.1.Grounded (Object.Sited r) depth)
      (huv : c.Recurs u v) : v.2.length < u.2.length ∨
        v.2.length ≤ u.2.length ∧ r.Embeds u.1.className v.1.className := by
    obtain ⟨depth, hu⟩ := hu
    obtain ⟨listed, hcall⟩ := huv
    cases listed with
    | true => exact .inl (hcall.length_lt hc (regular_decodeInto hc) hu)
    | false => exact .inr ⟨hcall.length_le (regular_decodeInto hc),
        hcall.embeds hc (regular_decodeInto hc) hu⟩
  induction h with
  | single hcall => exact (hone hx hcall).imp id (fun h => ⟨h.1, .single h.2⟩)
  | tail hpath hcall ih =>
      have hnext := hone (sited_of_recurs hc hpath.to_reflTransGen hx) hcall
      rcases ih with ih | ⟨hle, hembeds⟩ <;> rcases hnext with hnext | ⟨hnextLe, hnext⟩
      · exact .inl (by omega)
      · exact .inl (by omega)
      · exact .inl (by omega)
      · exact .inr ⟨by omega, hembeds.tail hnext⟩

theorem length_lt_of_className_eq (hc : c.plans = Plan.all r) {x y : Object × Bytes}
    (h : TransGen c.Recurs x y) (hx : ∃ depth, x.1.Grounded (Object.Sited r) depth)
    (hclass : y.1.className = x.1.className) : y.2.length < x.2.length := by
  rcases length_lt_or_embeds hc h hx with hlt | ⟨-, hembeds⟩
  · exact hlt
  · obtain ⟨_, ⟨_, p, hp, -⟩, -⟩ := TransGen.head'_iff.1 h
    rw [hclass] at hembeds
    exact absurd hembeds (not_transGen_embeds hc hp)

/-- Making objects and decoding are recursions that come to an end. They obey their own equations,
with no bound on the depth: the one asks for the parts of a class alone, which form no cycle, and the
other makes the calls of `Recurs` alone, of which there is no infinite chain. Of the calls that are
made from a new object on, one for an element of a variable list leaves less input, any other goes
along a part of a class, and so a chain of calls that comes back to a class has taken some input. -/
theorem recursion_ends {e : Endian} (hc : c = ofRegistry r e) :
    ((∀ name, c.instantiate name = c.assemble c.instantiate name) ∧
      (∀ name make make', (∀ target, c.Makes name target → make target = make' target) →
        c.assemble make name = c.assemble make' name) ∧
      WellFounded (flip c.Makes) ∧ (∀ name, ¬TransGen c.Makes name name) ∧
      ∀ name target, c.instantiate name ≠ .error (.tooDeep target)) ∧
    ((∀ o bs, c.decodeInto o bs = c.decodeBy c.decodeInto o bs) ∧
      (∀ decode decode' o bs, (∀ listed q rest, c.Calls decode listed (o, bs) (q, rest) →
        decode q rest = decode' q rest) → c.decodeBy decode o bs = c.decodeBy decode' o bs) ∧
      WellFounded (flip c.Recurs) ∧
      (∀ o bs target, (c.decodeInto o bs).rest ≠ .error (.tooDeep target)) ∧
      ∀ name bs target, c.decode name bs ≠ .error (.tooDeep target)) ∧
    ∀ name new bs x y, c.instantiate name = .ok new → ReflTransGen c.Recurs (new, bs) x →
      (c.Calls c.decodeInto true x y → y.2.length < x.2.length) ∧
      (c.Calls c.decodeInto false x y →
        y.2.length ≤ x.2.length ∧ r.Embeds x.1.className y.1.className) ∧
      (TransGen c.Recurs x y → y.1.className = x.1.className → y.2.length < x.2.length) := by
  have hc : c.plans = Plan.all r := by rw [hc]; rfl
  refine ⟨⟨instantiate_eq_assemble hc, fun name make make' => assemble_congr,
    ⟨fun name => acc_makes hc (makeable_length hc name)⟩, fun name => not_transGen_makes hc,
    instantiate_ne_tooDeep hc⟩, ⟨decodeInto_eq_decodeBy hc, fun decode decode' o bs =>
    decodeBy_congr, wellFounded_recurs hc, rest_decodeInto_ne_tooDeep hc, ?_⟩, ?_⟩
  · intro name bs target hdecode
    rcases bind_eq_error.1 hdecode with hnew | ⟨new, -, hdecode⟩
    · exact instantiate_ne_tooDeep hc name target hnew
    rcases bind_eq_error.1 hdecode with hrest | ⟨rest, -, hdecode⟩
    · exact rest_decodeInto_ne_tooDeep hc new bs target hrest
    · cases hdecode
  · intro name new bs x y hnew hx
    have hnew := grounded_of_conforms hc (conforms_of_instantiate hc hnew)
    obtain ⟨depth, hsited⟩ := sited_of_recurs hc hx ⟨_, hnew⟩
    have hregular := regular_decodeInto hc
    refine ⟨fun hcall => hcall.length_lt hc hregular hsited, fun hcall => ?_, fun hpath => ?_⟩
    · exact ⟨hcall.length_le hregular, hcall.embeds hc hregular hsited⟩
    · exact length_lt_of_className_eq hc hpath ⟨depth, hsited⟩

theorem instantiate_sampleBase :
    (ofRegistry Registry.sample .big).instantiate "A" = .ok (.sampleBase 0 []) := by
  rw [ofRegistry_sample]
  decide +kernel

theorem calls_sample : (ofRegistry Registry.sample .big).Calls
    (ofRegistry Registry.sample .big).decodeInto true (.sampleBase 0 [], [1, 0])
    (.sampleBase 0 [], [0]) := by
  refine ⟨Plan.sampleBase, by rw [ofRegistry_sample]; rfl,
    [.field ⟨"n", none, .lengthOf .byte "u", none, false⟩],
    .field ⟨"u", none, .nestedList "A" ⟨"n", "A", 0, .byte⟩, none, false⟩, [],
    .sampleBase 1 [], [0], rfl, ?_, ?_⟩
  · rw [ofRegistry_sample]
    rfl
  · exact .element rfl (by decide +kernel) Nat.zero_lt_one rfl instantiate_sampleBase

theorem recursion_ends_sample : (ofRegistry Registry.sample .big).instantiate "A" =
      .ok (.sampleBase 0 []) ∧
    (ofRegistry Registry.sample .big).Recurs (.sampleBase 0 [], [1, 0]) (.sampleBase 0 [], [0]) ∧
    ∀ bs y, TransGen (ofRegistry Registry.sample .big).Recurs (.sampleBase 0 [], bs) y →
      y.1.className = "A" → y.2.length < bs.length := by
  refine ⟨instantiate_sampleBase, ⟨true, calls_sample⟩, fun bs y => ?_⟩
  exact ((recursion_ends rfl).2.2 "A" _ bs _ y instantiate_sampleBase .refl).2.2

/-- Decoding takes a part of the input that ends where it says itself: what follows is of no concern,
and less than that part is too short. -/
theorem decodeInto_selfDelimiting {e : Endian} (hc : c = ofRegistry r e) {k : Nat}
    (hk : used bs (c.decodeInto o bs) = .ok k) :
    k ≤ bs.length ∧
    (∀ bs', bs'.take k = bs.take k → used bs' (c.decodeInto o bs') = .ok k ∧
      (c.decodeInto o bs').object = (c.decodeInto o bs).object) ∧
    ∀ cut, cut <+: bs.take k → cut ≠ bs.take k →
      ∃ error, (c.decodeInto o cut).rest = .error error ∧ error.IsShortInput := by
  have hc : c.plans = Plan.all r := by rw [hc]; rfl
  obtain ⟨rest, hrest, rfl⟩ := map_eq_ok.1 hk
  have hread : c.decodeInto o bs = ⟨(c.decodeInto o bs).object, .ok rest⟩ := by rw [← hrest]
  obtain ⟨taken, rfl, hsame, hshort⟩ :=
    delimited_decodeInto hc o bs _ rest (Decoded.outcome_eq_ok.2 hread)
  have hlength : (taken ++ rest).length - rest.length = taken.length := by simp
  rw [hlength, List.take_left]
  refine ⟨by simp, fun bs' hbs' => ?_, fun cut hcut hne => ?_⟩
  · obtain ⟨other, rfl⟩ := List.prefix_iff_eq_take.2 hbs'.symm
    rw [Decoded.outcome_eq_ok.1 (hsame other)]
    exact ⟨by simp [used, Except.map], rfl⟩
  · obtain ⟨error, herror, hkind⟩ := hshort cut hcut hne
    exact ⟨error, Decoded.outcome_eq_error.1 herror, hkind⟩

theorem decodeInto_selfDelimiting_sample :
    used [1, 0, 9] ((ofRegistry Registry.sample .big).decodeInto (.sampleBase 0 []) [1, 0, 9]) =
      .ok 2 ∧
    ∃ error, ((ofRegistry Registry.sample .big).decodeInto (.sampleBase 0 []) [1]).rest =
      .error error ∧ error.IsShortInput := by
  have hused : used [1, 0, 9] ((ofRegistry Registry.sample .big).decodeInto (.sampleBase 0 [])
      [1, 0, 9]) = .ok 2 := by
    rw [ofRegistry_sample]
    decide +kernel
  exact ⟨hused, (decodeInto_selfDelimiting rfl hused).2.2 [1] (by decide) (by decide)⟩

end Decoding

end Codec

end WireSchema
