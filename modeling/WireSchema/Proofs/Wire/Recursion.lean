import WireSchema.Proofs.Wire.Grounded

namespace WireSchema

open Outcome

namespace Codec

variable (c : Codec)

/-- One step of decoding into `o`, with the input `bs`, decodes into `q` from `rest` on. The elements
of a variable list are told from other objects by the flag. -/
inductive StepCalls (decode : Object → Bytes → Decoded) (o : Object) (bs : Bytes) :
    WireStep → Bool → Object → Bytes → Prop
  | parent {name : String} {q : Object} (found : o.parent = some q) :
      StepCalls decode o bs (.parent name) false q bs
  | nested {f : FieldPlan} {name : String} {q : Object} (layout : f.layout = .nested name)
      (found : o.own? f.name = some (.object q)) : StepCalls decode o bs (.field f) false q bs
  | slot {f : FieldPlan} {name : String} {n i : Nat} {v : Value} {q : Object} {rest : Bytes}
      (layout : f.layout = .fixedNested name n) (lt : i < n)
      (before : readMany (c.readObject decode name) [] i bs = .ok (v, rest))
      (made : c.instantiate name = .ok q) : StepCalls decode o bs (.field f) false q rest
  | element {f : FieldPlan} {name : String} {count : CountSource} {n i : Nat} {v : Value}
      {q : Object} {rest : Bytes} (layout : f.layout = .nestedList name count)
      (counted : elementCount o f.name count = .ok n) (lt : i < n)
      (before : readMany (c.readObject decode name) [] i bs = .ok (v, rest))
      (made : c.instantiate name = .ok q) : StepCalls decode o bs (.field f) true q rest

def StepsCall (decode : Object → Bytes → Decoded) (steps : List WireStep) (o : Object) (bs : Bytes)
    (listed : Bool) (q : Object) (rest : Bytes) : Prop :=
  ∃ pre step post o' bs', steps = pre ++ step :: post ∧
    c.decodeSteps decode o pre bs = ⟨o', .ok bs'⟩ ∧ c.StepCalls decode o' bs' step listed q rest

def Calls (decode : Object → Bytes → Decoded) (listed : Bool) (x y : Object × Bytes) : Prop :=
  ∃ p, c.plan x.1.className = .ok p ∧ c.StepsCall decode p.wireSteps x.1 x.2 listed y.1 y.2

def decodeBy (decode : Object → Bytes → Decoded) (o : Object) (bs : Bytes) : Decoded :=
  match c.plan o.className with
  | .error e => ⟨o, .error e⟩
  | .ok p => c.decodeSteps decode o p.wireSteps bs

variable {c} {f g : Object → Bytes → Decoded} {o : Object} {bs : Bytes}

theorem readMany_congr {read read' : Bytes → Except CodecError (Value × Bytes)} {done : List Value}
    {n : Nat} (h : ∀ i v rest, i < n → readMany read done i bs = .ok (v, rest) →
      read rest = read' rest) : readMany read done n bs = readMany read' done n bs := by
  induction n generalizing done bs with
  | zero => rfl
  | succ n ih =>
      have hfirst : read bs = read' bs := h 0 _ bs (by omega) rfl
      rw [readMany_succ, readMany_succ, ← hfirst]
      cases hread : read bs with
      | error e => rfl
      | ok x =>
          apply ih
          intro i v rest hi hbefore
          refine h (i + 1) v rest (by omega) ?_
          rw [readMany_succ, hread]
          exact hbefore

theorem readObject_congr {name : String}
    (h : ∀ q, c.instantiate name = .ok q → f q bs = g q bs) :
    c.readObject f name bs = c.readObject g name bs := by
  simp only [readObject]
  cases hnew : c.instantiate name with
  | error e => rfl
  | ok q => rw [ok_bind, ok_bind, h q hnew]

theorem decodeStep_congr {step : WireStep}
    (h : ∀ listed q rest, c.StepCalls f o bs step listed q rest → f q rest = g q rest) :
    c.decodeStep f o step bs = c.decodeStep g o step bs := by
  cases step with
  | parent name =>
      simp only [decodeStep]
      cases hq : o.parent with
      | none => rfl
      | some q => simp only [h false q bs (.parent hq)]
  | field fp =>
      simp only [decodeStep, decodeField]
      cases hl : fp.layout with
      | scalar t | lengthOf t _ | fixedScalars t _ | scalarList t _ => rfl
      | nested name =>
          cases hv : o.own? fp.name with
          | none => rfl
          | some v =>
              cases v with
              | object q => simp only [h false q bs (.nested hl hv)]
              | scalar s => rfl
              | list vs => rfl
      | fixedNested name n =>
          refine congrArg (put o fp.name) (readMany_congr ?_)
          intro i v rest hi hbefore
          apply readObject_congr
          intro q hq
          exact h false q rest (.slot hl hi hbefore hq)
      | nestedList name count =>
          refine congrArg (put o fp.name) ?_
          simp only [readObjectList]
          cases hn : elementCount o fp.name count with
          | error e => rfl
          | ok n =>
              apply readMany_congr
              intro i v rest hi hbefore
              apply readObject_congr
              intro q hq
              exact h true q rest (.element hl hn hi hbefore hq)

theorem StepsCall.head {step : WireStep} {steps : List WireStep} {listed : Bool} {q : Object}
    {rest : Bytes} (h : c.StepCalls f o bs step listed q rest) :
    c.StepsCall f (step :: steps) o bs listed q rest :=
  ⟨[], step, steps, o, bs, rfl, rfl, h⟩

theorem StepsCall.tail {step : WireStep} {steps : List WireStep} {listed : Bool} {q o' : Object}
    {rest bs' : Bytes} (hstep : c.decodeStep f o step bs = ⟨o', .ok bs'⟩)
    (h : c.StepsCall f steps o' bs' listed q rest) :
    c.StepsCall f (step :: steps) o bs listed q rest := by
  obtain ⟨pre, last, post, o₁, bs₁, rfl, hpre, hcall⟩ := h
  exact ⟨step :: pre, last, post, o₁, bs₁, rfl, decodeSteps_cons.2 ⟨o', bs', hstep, hpre⟩, hcall⟩

theorem decodeSteps_congr {steps : List WireStep}
    (h : ∀ listed q rest, c.StepsCall f steps o bs listed q rest → f q rest = g q rest) :
    c.decodeSteps f o steps bs = c.decodeSteps g o steps bs := by
  induction steps generalizing o bs with
  | nil => rfl
  | cons step steps ih =>
      have hstep : c.decodeStep f o step bs = c.decodeStep g o step bs :=
        decodeStep_congr fun listed q rest hcall => h listed q rest (.head hcall)
      simp only [decodeSteps, ← hstep]
      cases hrest : (c.decodeStep f o step bs).rest with
      | error e => rfl
      | ok bs' =>
          apply ih
          intro listed q rest hcall
          refine h listed q rest (.tail ?_ hcall)
          rw [← hrest]

theorem decodeBy_congr
    (h : ∀ listed q rest, c.Calls f listed (o, bs) (q, rest) → f q rest = g q rest) :
    c.decodeBy f o bs = c.decodeBy g o bs := by
  simp only [decodeBy]
  cases hp : c.plan o.className with
  | error e => rfl
  | ok p => exact decodeSteps_congr fun listed q rest hcall => h listed q rest ⟨p, hp, hcall⟩

theorem exists_of_readMany_error {read : Bytes → Except CodecError (Value × Bytes)}
    {done : List Value} {n : Nat} {e : CodecError} (h : readMany read done n bs = .error e) :
    ∃ i v rest, i < n ∧ readMany read done i bs = .ok (v, rest) ∧ read rest = .error e := by
  induction n generalizing done bs with
  | zero => cases h
  | succ n ih =>
      rw [readMany_succ] at h
      rcases bind_eq_error.1 h with h | ⟨x, hx, h⟩
      · exact ⟨0, _, bs, by omega, rfl, h⟩
      · obtain ⟨i, v, rest, hi, hbefore, hread⟩ := ih h
        refine ⟨i + 1, v, rest, by omega, ?_, hread⟩
        rw [readMany_succ, hx]
        exact hbefore

section TooDeep

variable (hmake : ∀ name target, c.instantiate name ≠ .error (.tooDeep target)) {target : String}

include hmake in
theorem exists_of_readObject_tooDeep {name : String}
    (h : c.readObject f name bs = .error (.tooDeep target)) :
    ∃ q, c.instantiate name = .ok q ∧ (f q bs).rest = .error (.tooDeep target) := by
  rcases bind_eq_error.1 h with h | ⟨q, hq, h⟩
  · exact absurd h (hmake name target)
  · rcases bind_eq_error.1 h with h | ⟨rest, -, h⟩
    · exact ⟨q, hq, h⟩
    · cases h

theorem rest_put_tooDeep {field : String} {read : Except CodecError (Value × Bytes)}
    (h : (put o field read).rest = .error (.tooDeep target)) : read = .error (.tooDeep target) := by
  cases read with
  | error e => exact congrArg Except.error (Except.error.inj h)
  | ok x =>
      obtain ⟨v, rest⟩ := x
      simp only [put] at h
      split at h <;> cases h

theorem readScalarValue_ne_tooDeep (c : Codec) (t : Primitive) (bs : Bytes) :
    c.readScalarValue t bs ≠ .error (.tooDeep target) := by
  intro h
  simp only [readScalarValue, map_eq_error, readScalar] at h
  split at h <;> cases h

theorem readMany_scalars_ne_tooDeep (c : Codec) (t : Primitive) (n : Nat) :
    readMany (c.readScalarValue t) [] n bs ≠ .error (.tooDeep target) := by
  intro h
  obtain ⟨i, v, rest, -, -, h⟩ := exists_of_readMany_error h
  exact c.readScalarValue_ne_tooDeep t rest h

theorem elementCount_ne_tooDeep {list : String} {count : CountSource} :
    elementCount o list count ≠ .error (.tooDeep target) := by
  intro h
  rw [elementCount] at h
  split at h
  · cases h
  · split at h <;> cases h

include hmake in
theorem exists_of_decodeStep_tooDeep {step : WireStep}
    (h : (c.decodeStep f o step bs).rest = .error (.tooDeep target)) :
    ∃ listed q rest, c.StepCalls f o bs step listed q rest ∧
      (f q rest).rest = .error (.tooDeep target) := by
  cases step with
  | parent name =>
      simp only [decodeStep] at h
      split at h
      next q hq => exact ⟨false, q, bs, .parent hq, h⟩
      next => cases h
  | field fp =>
      simp only [decodeStep, decodeField] at h
      cases hl : fp.layout with
      | scalar t | lengthOf t _ =>
          rw [hl] at h
          exact absurd (rest_put_tooDeep h) (c.readScalarValue_ne_tooDeep t bs)
      | fixedScalars t n =>
          rw [hl] at h
          exact absurd (rest_put_tooDeep h) (c.readMany_scalars_ne_tooDeep t n)
      | scalarList t count =>
          rw [hl] at h
          rcases bind_eq_error.1 (rest_put_tooDeep h) with h | ⟨n, -, h⟩
          · exact absurd h elementCount_ne_tooDeep
          · rw [readScalars] at h
            split at h
            · cases h
            · exact absurd h (c.readMany_scalars_ne_tooDeep t n)
      | nested name =>
          rw [hl] at h
          cases hv : o.own? fp.name with
          | none =>
              rw [hv] at h
              cases h
          | some v =>
              rw [hv] at h
              cases v with
              | object q => exact ⟨false, q, bs, .nested hl hv, h⟩
              | scalar s => cases h
              | list vs => cases h
      | fixedNested name n =>
          rw [hl] at h
          obtain ⟨i, v, rest, hi, hbefore, h⟩ := exists_of_readMany_error (rest_put_tooDeep h)
          obtain ⟨q, hq, h⟩ := exists_of_readObject_tooDeep hmake h
          exact ⟨false, q, rest, .slot hl hi hbefore hq, h⟩
      | nestedList name count =>
          rw [hl] at h
          rcases bind_eq_error.1 (rest_put_tooDeep h) with h | ⟨n, hn, h⟩
          · exact absurd h elementCount_ne_tooDeep
          · obtain ⟨i, v, rest, hi, hbefore, h⟩ := exists_of_readMany_error h
            obtain ⟨q, hq, h⟩ := exists_of_readObject_tooDeep hmake h
            exact ⟨true, q, rest, .element hl hn hi hbefore hq, h⟩

include hmake in
theorem exists_of_decodeSteps_tooDeep {steps : List WireStep}
    (h : (c.decodeSteps f o steps bs).rest = .error (.tooDeep target)) :
    ∃ listed q rest, c.StepsCall f steps o bs listed q rest ∧
      (f q rest).rest = .error (.tooDeep target) := by
  induction steps generalizing o bs with
  | nil => cases h
  | cons step steps ih =>
      simp only [decodeSteps] at h
      split at h
      next bs' hrest =>
        obtain ⟨listed, q, rest, hcall, h⟩ := ih h
        refine ⟨listed, q, rest, .tail ?_ hcall, h⟩
        rw [← hrest]
      next e hrest =>
        cases h
        obtain ⟨listed, q, rest, hcall, h⟩ := exists_of_decodeStep_tooDeep hmake hrest
        exact ⟨listed, q, rest, .head hcall, h⟩

end TooDeep

end Codec

end WireSchema
