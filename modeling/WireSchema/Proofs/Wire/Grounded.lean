import WireSchema.Proofs.Plan.Counting
import WireSchema.Proofs.Wire.Decoding
import WireSchema.Proofs.Wire.Delimited

namespace WireSchema

open Outcome

namespace Object

def ownObjects (o : Object) : List Object :=
  o.fields.filterMap (·.2.object?)

def held (o : Object) : List Object :=
  o.parent.toList ++ o.ownObjects

/-- Every object that is held by value, and the object itself, has the property `P`, and they are
held at most `depth` levels deep. -/
inductive Grounded (P : Object → Prop) : Nat → Object → Prop
  | intro {depth : Nat} {o : Object} (here : P o) (held : ∀ q ∈ o.held, Grounded P depth q) :
      Grounded P (depth + 1) o

/-- `o'` holds objects by value only where `o` does, and of the same classes. -/
structure Narrows (o o' : Object) : Prop where
  className : o'.className = o.className
  parent : o'.parent.map Object.className = o.parent.map Object.className
  own : ∀ q' ∈ o'.ownObjects, ∃ q ∈ o.ownObjects, q'.className = q.className

def OfClasses (P : Object → Prop) : Prop :=
  ∀ o o', Narrows o o' → P o → P o'

variable {P : Object → Prop} {depth : Nat} {o q : Object}

theorem Grounded.here (h : o.Grounded P depth) : P o := by
  cases h
  assumption

theorem mem_held : q ∈ o.held ↔ o.parent = some q ∨ q ∈ o.ownObjects := by
  simp [held]

theorem mem_ownObjects : q ∈ o.ownObjects ↔ ∃ n, (n, .object q) ∈ o.fields := by
  have hobject (v : Value) : v.object? = some q ↔ v = .object q := by
    cases v <;> simp [Value.object?]
  simp [ownObjects, hobject]

theorem mem_ownObjects_of_own? {n : String} (h : o.own? n = some (.object q)) : q ∈ o.ownObjects := by
  obtain ⟨pre, post, hfields, -⟩ := exists_of_lookup h
  exact mem_ownObjects.2 ⟨n, by simp [hfields]⟩

theorem exists_of_setOwn? {n : String} {v : Value} {o' : Object} (h : o.setOwn? n v = some o') :
    ∃ pre w post, o.fields = pre ++ (n, w) :: post ∧
      o' = .mk o.className o.parent (pre ++ (n, v) :: post) := by
  obtain ⟨fs, hfs, rfl⟩ := Option.map_eq_some_iff.1 h
  clear h
  suffices hsplit : ∃ pre w post, o.fields = pre ++ (n, w) :: post ∧ fs = pre ++ (n, v) :: post by
    obtain ⟨pre, w, post, hfields, rfl⟩ := hsplit
    exact ⟨pre, w, post, hfields, rfl⟩
  generalize o.fields = es at hfs
  induction es generalizing fs with
  | nil => cases hfs
  | cons e es ih =>
      obtain ⟨m, w⟩ := e
      rw [updateNamed?] at hfs
      split at hfs
      next hm =>
        cases hfs
        exact ⟨[], w, es, by rw [hm]; rfl, by rw [hm]; rfl⟩
      next =>
        obtain ⟨gs, hgs, rfl⟩ := Option.map_eq_some_iff.1 hfs
        obtain ⟨pre, w', post, rfl, rfl⟩ := ih gs hgs
        exact ⟨(m, w) :: pre, w', post, rfl, rfl⟩

theorem className_of_setOwn? {n : String} {v : Value} {o' : Object} (h : o.setOwn? n v = some o') :
    o'.className = o.className := by
  obtain ⟨pre, w, post, -, rfl⟩ := exists_of_setOwn? h
  rfl

theorem Grounded.setOwn (hP : OfClasses P) (h : o.Grounded P (depth + 1)) {n : String} {v : Value}
    (hv : ∀ q', v = .object q' → q'.Grounded P depth ∧ ∃ q ∈ o.ownObjects, q'.className = q.className)
    {o' : Object} (hset : o.setOwn? n v = some o') : o'.Grounded P (depth + 1) := by
  cases h with
  | intro here held =>
      have hown : ∀ q' ∈ o'.ownObjects,
          q'.Grounded P depth ∧ ∃ q ∈ o.ownObjects, q'.className = q.className := by
        intro q' hq'
        obtain ⟨pre, w, post, hfields, rfl⟩ := exists_of_setOwn? hset
        obtain ⟨m, hm⟩ := mem_ownObjects.1 hq'
        rcases List.mem_append.1 hm with hm | hm
        · have hq : q' ∈ o.ownObjects := mem_ownObjects.2 ⟨m, by simp [hfields, hm]⟩
          exact ⟨held q' (mem_held.2 (.inr hq)), q', hq, rfl⟩
        rcases List.mem_cons.1 hm with hm | hm
        · cases hm
          exact hv q' rfl
        · have hq : q' ∈ o.ownObjects := mem_ownObjects.2 ⟨m, by simp [hfields, hm]⟩
          exact ⟨held q' (mem_held.2 (.inr hq)), q', hq, rfl⟩
      obtain ⟨pre, w, post, -, rfl⟩ := exists_of_setOwn? hset
      refine .intro (hP o _ ⟨rfl, rfl, fun q' hq' => (hown q' hq').2⟩ here) fun q' hq' => ?_
      rcases mem_held.1 hq' with hq' | hq'
      · exact held q' (mem_held.2 (.inl hq'))
      · exact (hown q' hq').1

theorem Grounded.withParent (hP : OfClasses P) (h : o.Grounded P (depth + 1))
    (hq : o.parent = some q) {q' : Object} (hclass : q'.className = q.className)
    (hq' : q'.Grounded P depth) : (o.withParent q').Grounded P (depth + 1) := by
  cases h with
  | intro here held =>
      refine .intro (hP o _ ⟨rfl, ?_, fun q' hq' => ⟨q', hq', rfl⟩⟩ here) fun p hp => ?_
      · rw [hq]
        exact congrArg some hclass
      · rcases mem_held.1 hp with hp | hp
        · cases hp
          exact hq'
        · exact held p (mem_held.2 (.inr hp))

end Object

namespace Codec

structure Keeps (P : Object → Prop) (decode : Object → Bytes → Decoded) : Prop where
  className : ∀ o bs, (decode o bs).object.className = o.className
  grounded : ∀ {depth o} bs, o.Grounded P depth → (decode o bs).object.Grounded P depth

variable {c : Codec} {P : Object → Prop} {decode : Object → Bytes → Decoded}

theorem object?_of_readScalarValue {t : Primitive} {bs rest : Bytes} {v : Value}
    (h : c.readScalarValue t bs = .ok (v, rest)) : v.object? = none := by
  rw [readScalarValue] at h
  cases hs : c.readScalar t bs with
  | error e =>
      rw [hs] at h
      cases h
  | ok x =>
      rw [hs] at h
      cases h
      rfl

theorem object?_of_readMany {read : Bytes → Except CodecError (Value × Bytes)} {done : List Value}
    {n : Nat} {bs rest : Bytes} {v : Value} (h : readMany read done n bs = .ok (v, rest)) :
    v.object? = none := by
  induction n generalizing done bs with
  | zero =>
      cases h
      rfl
  | succ n ih =>
      rw [readMany_succ] at h
      obtain ⟨x, -, h⟩ := bind_eq_ok.1 h
      exact ih h

theorem className_put (o : Object) (field : String) (read : Except CodecError (Value × Bytes)) :
    (put o field read).object.className = o.className := by
  cases read with
  | error e => rfl
  | ok x =>
      obtain ⟨v, rest⟩ := x
      cases hset : o.setOwn? field v with
      | none => simp [put, hset]
      | some o' => simp [put, hset, Object.className_of_setOwn? hset]

theorem grounded_put (hP : Object.OfClasses P) {o : Object} {depth : Nat} (ho : o.Grounded P depth)
    {field : String} {read : Except CodecError (Value × Bytes)}
    (hread : ∀ v rest, read = .ok (v, rest) → v.object? = none) :
    (put o field read).object.Grounded P depth := by
  cases depth with
  | zero => cases ho
  | succ depth =>
      cases read with
      | error e => exact ho
      | ok x =>
          obtain ⟨v, rest⟩ := x
          simp only [put]
          split
          next o' hset =>
            refine ho.setOwn hP ?_ hset
            rintro q rfl
            cases hread _ _ rfl
          next => exact ho

/-- The step for a field either puts a value that is no object in its place, or decodes the object
that is there. -/
theorem decodeField_cases (decode : Object → Bytes → Decoded) (o : Object) (f : FieldPlan)
    (bs : Bytes) :
    (∃ read, c.decodeField decode o f bs = put o f.name read ∧
      ∀ v rest, read = .ok (v, rest) → v.object? = none) ∨
    (∃ q, o.own? f.name = some (.object q) ∧ c.decodeField decode o f bs =
      ⟨(o.setOwn? f.name (.object (decode q bs).object)).getD o, (decode q bs).rest⟩) ∨
    c.decodeField decode o f bs = ⟨o, .error (.missing o.className f.name)⟩ := by
  rw [decodeField]
  cases f.layout with
  | scalar t | lengthOf t _ => exact .inl ⟨_, rfl, fun v rest => object?_of_readScalarValue⟩
  | fixedScalars t n | fixedNested name n => exact .inl ⟨_, rfl, fun v rest => object?_of_readMany⟩
  | scalarList t count =>
      refine .inl ⟨_, rfl, fun v rest h => ?_⟩
      obtain ⟨n, -, h⟩ := bind_eq_ok.1 h
      exact object?_of_readMany (c.readScalars_eq_ok.1 h)
  | nestedList name count =>
      refine .inl ⟨_, rfl, fun v rest h => ?_⟩
      obtain ⟨n, -, h⟩ := bind_eq_ok.1 h
      exact object?_of_readMany h
  | nested name =>
      cases o.own? f.name with
      | none => exact .inr (.inr rfl)
      | some v =>
          cases v with
          | object q => exact .inr (.inl ⟨q, rfl, rfl⟩)
          | scalar s => exact .inr (.inr rfl)
          | list vs => exact .inr (.inr rfl)

theorem className_decodeStep (o : Object) (step : WireStep) (bs : Bytes) :
    (c.decodeStep decode o step bs).object.className = o.className := by
  cases step with
  | parent name =>
      rw [decodeStep]
      split <;> rfl
  | field f =>
      rcases c.decodeField_cases decode o f bs with ⟨read, h, -⟩ | ⟨q, -, h⟩ | h
      · rw [decodeStep, h, className_put]
      · rw [decodeStep, h]
        cases hset : o.setOwn? f.name (.object (decode q bs).object) with
        | none => rfl
        | some o' => exact Object.className_of_setOwn? hset
      · rw [decodeStep, h]

theorem Keeps.decodeStep (hP : Object.OfClasses P) (h : Keeps P decode) {o : Object} {depth : Nat}
    (ho : o.Grounded P depth) (step : WireStep) (bs : Bytes) :
    (c.decodeStep decode o step bs).object.Grounded P depth := by
  cases depth with
  | zero => cases ho
  | succ depth =>
      have hheld {q : Object} (hq : q ∈ o.held) : (decode q bs).object.Grounded P depth := by
        cases ho with
        | intro here held => exact h.grounded bs (held q hq)
      cases step with
      | parent name =>
          rw [Codec.decodeStep]
          split
          next q hq =>
            exact ho.withParent hP hq (h.className q bs) (hheld (Object.mem_held.2 (.inl hq)))
          next => exact ho
      | field f =>
          rcases c.decodeField_cases decode o f bs with ⟨read, heq, hread⟩ | ⟨q, hq, heq⟩ | heq
          · rw [Codec.decodeStep, heq]
            exact grounded_put hP ho hread
          · rw [Codec.decodeStep, heq]
            have hmem := Object.mem_ownObjects_of_own? hq
            cases hset : o.setOwn? f.name (.object (decode q bs).object) with
            | none => exact ho
            | some o' =>
                refine ho.setOwn hP ?_ hset
                rintro _ ⟨⟩
                exact ⟨hheld (Object.mem_held.2 (.inr hmem)), q, hmem, h.className q bs⟩
          · rw [Codec.decodeStep, heq]
            exact ho

theorem Keeps.decodeSteps (hP : Object.OfClasses P) (h : Keeps P decode) {o : Object} {depth : Nat}
    (ho : o.Grounded P depth) (steps : List WireStep) (bs : Bytes) :
    (c.decodeSteps decode o steps bs).object.Grounded P depth := by
  induction steps generalizing o bs with
  | nil => exact ho
  | cons step steps ih =>
      have hstep := h.decodeStep hP ho step bs (c := c)
      rw [Codec.decodeSteps]
      split
      next => exact ih hstep _
      next => exact hstep

theorem className_decodeSteps (o : Object) (steps : List WireStep) (bs : Bytes) :
    (c.decodeSteps decode o steps bs).object.className = o.className := by
  induction steps generalizing o bs with
  | nil => rfl
  | cons step steps ih =>
      rw [decodeSteps]
      split
      next => rw [ih, className_decodeStep]
      next => exact className_decodeStep o step bs

theorem keeps_decodeWithin (c : Codec) (hP : Object.OfClasses P) (depth : Nat) :
    Keeps P (c.decodeWithin depth) := by
  induction depth with
  | zero => exact ⟨fun o bs => rfl, fun bs ho => ho⟩
  | succ depth ih =>
      refine ⟨fun o bs => ?_, fun {n o} bs ho => ?_⟩
      · rw [decodeWithin]
        split
        · rfl
        · exact className_decodeSteps o _ bs
      · rw [decodeWithin]
        split
        · exact ho
        · exact ih.decodeSteps hP ho _ bs

end Codec

namespace Object

theorem height_lt_of_mem_held {o q : Object} (h : q ∈ o.held) : q.height < o.height := by
  rcases mem_held.1 h with h | h
  · exact parent_height_lt h
  · obtain ⟨n, hn⟩ := mem_ownObjects.1 h
    obtain ⟨className, parent, fs⟩ := o
    have hle : q.height ≤ fieldHeights fs := height_le_of_mem hn
    rw [height]
    omega

theorem grounded_of {P Q : Object → Prop} (hQ : ∀ o, Q o → P o ∧ ∀ q ∈ o.held, Q q) {o : Object}
    (h : Q o) : o.Grounded P o.height := by
  generalize hn : o.height = n
  have hle : o.height ≤ n := by omega
  clear hn
  induction n generalizing o with
  | zero =>
      obtain ⟨className, parent, fields⟩ := o
      simp [height] at hle
  | succ n ih =>
      refine .intro (hQ o h).1 fun q hq => ih ((hQ o h).2 q hq) ?_
      have := height_lt_of_mem_held hq
      omega

end Object

/-- The objects that an object holds by value are of the classes that its class declares. -/
structure Object.Sited (r : Registry) (o : Object) : Prop where
  parent : ∀ q, o.parent = some q →
    ∃ d, r.find? o.className = some d ∧ d.parent? = some q.className
  own : ∀ q ∈ o.ownObjects, r.Embeds o.className q.className

theorem Object.Sited.embeds {r : Registry} {o q : Object} (h : o.Sited r) (hq : q ∈ o.held) :
    r.Embeds o.className q.className := by
  rcases Object.mem_held.1 hq with hq | hq
  · obtain ⟨d, hd, hparent⟩ := h.parent q hq
    exact ⟨d, hd, .inl hparent⟩
  · exact h.own q hq

theorem Object.ofClasses_sited (r : Registry) : Object.OfClasses (Object.Sited r) := by
  intro o o' hn ho
  refine ⟨fun q' hq' => ?_, fun q' hq' => ?_⟩
  · have hmap := hn.parent
    rw [hq'] at hmap
    obtain ⟨q, hq, hclass⟩ := Option.map_eq_some_iff.1 hmap.symm
    rw [hn.className, ← hclass]
    exact ho.parent q hq
  · obtain ⟨q, hq, hclass⟩ := hn.own q' hq'
    rw [hn.className, hclass]
    exact ho.own q hq

theorem Object.ofClasses_true : Object.OfClasses fun _ => True :=
  fun _ _ _ _ => trivial

namespace Codec

variable {c : Codec} {r : Registry}

theorem sited_of_shaped (hc : c.plans = Plan.all r) {o : Object} (h : c.Shaped o) : o.Sited r := by
  obtain ⟨p, hp, hparent, hfields⟩ := h
  obtain ⟨d, hd, hname, hb⟩ := built_of_plan hc hp
  refine ⟨fun q hq => ?_, fun q hq => ?_⟩
  · refine ⟨d, Registry.find?_eq_some.2 ⟨hd, hname⟩, ?_⟩
    rw [← hb.parent, ← hparent, hq]
    rfl
  · obtain ⟨n, hn⟩ := Object.mem_ownObjects.1 hq
    obtain ⟨f, hf, -, hl, hclass⟩ := exists_left_of_mem hfields hn
    rw [← hname]
    refine embeds_of_layout hd hb hf hclass ?_
    simp only [Layout.isList, Bool.or_eq_false_iff] at hl
    exact hl.2

theorem mem_parts_of_held {o q : Object} (h : q ∈ o.held) : q ∈ o.parts := by
  rcases Object.mem_held.1 h with h | h
  · exact Object.mem_parts.2 (.inl h)
  · obtain ⟨n, hn⟩ := Object.mem_ownObjects.1 h
    exact Object.mem_parts.2 (.inr ⟨_, hn, List.mem_singleton.2 rfl⟩)

theorem grounded_of_conforms (hc : c.plans = Plan.all r) {name : String} {o : Object}
    (h : c.Conforms name o) : o.Grounded (Object.Sited r) o.height :=
  Object.grounded_of (Q := Object.Every c.Shaped)
    (fun _ ho => ⟨sited_of_shaped hc ho.here, fun _ hq => ho.parts (mem_parts_of_held hq)⟩) h.2

/-- A class has a number, or the class `k` steps above it has. -/
def Numbered (r : Registry) (k : Nat) (name : String) : Prop :=
  ∃ d a f, r.find? name = some d ∧ r.ancestor? k d = some a ∧ f ∈ a.fields ∧ f.primitive?.isSome

def Consumes (r : Registry) (decode : Object → Bytes → Decoded) : Prop :=
  ∀ {depth k q bs o rest}, q.Grounded (Object.Sited r) depth → Numbered r k q.className →
    decode q bs = ⟨o, .ok rest⟩ → rest.length < bs.length

/-- What is known of a function that decodes into objects. -/
structure Regular (r : Registry) (decode : Object → Bytes → Decoded) : Prop where
  delimited : ∀ o, Delimited fun bs => (decode o bs).outcome
  keeps : ∀ {P : Object → Prop}, Object.OfClasses P → Keeps P decode
  consumes : Consumes r decode

section Consumption

variable {decode : Object → Bytes → Decoded}

theorem length_le_of_decodeSteps (h : Regular r decode) {o o' : Object} {steps : List WireStep}
    {bs rest : Bytes} (hsteps : c.decodeSteps decode o steps bs = ⟨o', .ok rest⟩) :
    rest.length ≤ bs.length := by
  have hdelimited := c.delimited_decodeSteps h.delimited o steps
  exact (hdelimited.suffix (Decoded.outcome_eq_ok.2 hsteps)).length_le

theorem length_lt_of_scalar {o o' : Object} {f : FieldPlan} {t : Primitive} {bs rest : Bytes}
    (hl : f.layout.isList = false) (ht : f.layout.scalarType? = some t)
    (h : c.decodeStep decode o (.field f) bs = ⟨o', .ok rest⟩) : rest.length < bs.length := by
  have hput : put o f.name (c.readScalarValue t bs) = ⟨o', .ok rest⟩ := by
    rw [decodeStep, decodeField] at h
    cases hlayout : f.layout with
    | scalar _ | lengthOf _ _ =>
        rw [hlayout] at h ht
        cases ht
        exact h
    | nested _ =>
        rw [hlayout] at ht
        cases ht
    | fixedScalars _ _ | fixedNested _ _ | scalarList _ _ | nestedList _ _ =>
        rw [hlayout] at hl
        cases hl
  obtain ⟨v, hread, -⟩ := exists_of_put hput
  have hlength := c.length_of_readScalarValue hread
  have hpos := t.width_pos
  omega

theorem length_lt_of_mem (h : Regular r decode) {step : WireStep} {steps : List WireStep}
    (hmem : step ∈ steps) (hstep : ∀ {o o' : Object} {bs rest : Bytes},
      c.decodeStep decode o step bs = ⟨o', .ok rest⟩ → rest.length < bs.length)
    {o o' : Object} {bs rest : Bytes} (hsteps : c.decodeSteps decode o steps bs = ⟨o', .ok rest⟩) :
    rest.length < bs.length := by
  induction steps generalizing o bs with
  | nil => cases hmem
  | cons first steps ih =>
      obtain ⟨o₁, rest₁, hfirst, hsteps⟩ := decodeSteps_cons.1 hsteps
      have hle := length_le_of_decodeSteps h hsteps
      rcases List.mem_cons.1 hmem with rfl | hmem
      · have hlt := hstep hfirst
        omega
      · have hlt := ih hmem hsteps
        have hdelimited := c.delimited_decodeStep h.delimited o first
        have hle := (hdelimited.suffix (Decoded.outcome_eq_ok.2 hfirst)).length_le
        omega

theorem length_lt_of_parent (h : Regular r decode) {k depth : Nat} {d b : ClassDef} {o o' : Object}
    {name : String} {steps : List WireStep} {bs rest : Bytes}
    (ho : o.Grounded (Object.Sited r) depth) (hd : r.find? o.className = some d)
    (hb : r.parentOf? d = some b) (hnumber : Numbered r k b.name)
    (hsteps : c.decodeSteps decode o (.parent name :: steps) bs = ⟨o', .ok rest⟩) :
    rest.length < bs.length := by
  obtain ⟨o₁, rest₁, hfirst, hsteps⟩ := decodeSteps_cons.1 hsteps
  have hle := length_le_of_decodeSteps h hsteps
  rw [decodeStep] at hfirst
  split at hfirst
  next q hq =>
    obtain ⟨-, hrest⟩ := Decoded.mk.inj hfirst
    cases ho with
    | intro here held =>
        obtain ⟨d', hd', hparent⟩ := here.parent q hq
        rw [hd] at hd'
        cases hd'
        obtain ⟨target, htarget, hfind⟩ := Option.bind_eq_some_iff.1 hb
        obtain ⟨-, hname⟩ := Registry.find?_eq_some.1 hfind
        have hclass : q.className = b.name := by
          rw [hparent] at htarget
          cases htarget
          exact hname.symm
        have hq' : decode q bs = ⟨(decode q bs).object, .ok rest₁⟩ := by rw [← hrest]
        have hlt := h.consumes (held q (Object.mem_held.2 (.inl hq))) (hclass ▸ hnumber) hq'
        omega
  next => cases hfirst

theorem exists_plan_of_primitive {d : ClassDef} {p : Plan} (hb : Built r d p) {i : Nat} {f : Field}
    (hf : d.fields[i]? = some f) (hprimitive : f.primitive?.isSome) :
    ∃ fp t, p.fields[i]? = some fp ∧ fp.layout.isList = false ∧ fp.layout.scalarType? = some t := by
  obtain ⟨t, ht⟩ := Option.isSome_iff_exists.1 hprimitive
  obtain ⟨l, hl, hfp⟩ := hb.field_of_class hf
  obtain ⟨hlist, hscalar⟩ := scalarType?_of_layout hl ht
  exact ⟨_, t, hfp, hlist, hscalar⟩

theorem wireSteps_of_parent {p : Plan} {name : String} (h : p.parent = some name) :
    p.wireSteps = .parent name :: p.fields.map .field := by
  simp [Plan.wireSteps, h]

theorem length_lt_of_numbered (hc : c.plans = Plan.all r) (h : Regular r decode) {k depth : Nat}
    {o o' : Object} {p : Plan} {bs rest : Bytes} (ho : o.Grounded (Object.Sited r) depth)
    (hp : c.plan o.className = .ok p) (hnumber : Numbered r k o.className)
    (hsteps : c.decodeSteps decode o p.wireSteps bs = ⟨o', .ok rest⟩) : rest.length < bs.length := by
  obtain ⟨d, a, f, hd, ha, hf, hprimitive⟩ := hnumber
  obtain ⟨hmem, hname⟩ := Registry.find?_eq_some.1 hd
  have hb : Built r d p := built_of_mem hc hmem (hname ▸ hp)
  cases k with
  | zero =>
      cases ha
      obtain ⟨i, hi⟩ := List.mem_iff_getElem?.1 hf
      obtain ⟨fp, t, hfp, hlist, hscalar⟩ := exists_plan_of_primitive hb hi hprimitive
      have hstep : WireStep.field fp ∈ p.wireSteps := by
        simp [Plan.wireSteps, List.mem_of_getElem? hfp]
      exact length_lt_of_mem h hstep (length_lt_of_scalar hlist hscalar) hsteps
  | succ k =>
      obtain ⟨b, hb', ha⟩ := Option.bind_eq_some_iff.1 ha
      obtain ⟨target, htarget, hfind⟩ := Option.bind_eq_some_iff.1 hb'
      obtain ⟨hbmem, rfl⟩ := Registry.find?_eq_some.1 hfind
      rw [wireSteps_of_parent (hb.parent.trans htarget)] at hsteps
      exact length_lt_of_parent h ho hd hb' ⟨b, a, f, hfind, ha, hf, hprimitive⟩ hsteps

end Consumption

theorem regular_decodeWithin (hc : c.plans = Plan.all r) (depth : Nat) :
    Regular r (c.decodeWithin depth) := by
  induction depth with
  | zero =>
      refine ⟨c.delimited_decodeWithin 0, fun hP => c.keeps_decodeWithin hP 0, ?_⟩
      intro n k q bs o rest hq hnumber hdecode
      cases hdecode
  | succ depth ih =>
      refine ⟨c.delimited_decodeWithin _, fun hP => c.keeps_decodeWithin hP _, ?_⟩
      intro n k q bs o rest hq hnumber hdecode
      rw [decodeWithin] at hdecode
      split at hdecode
      next => cases hdecode
      next p hp => exact length_lt_of_numbered hc ih hq hp hnumber hdecode

end Codec

end WireSchema
