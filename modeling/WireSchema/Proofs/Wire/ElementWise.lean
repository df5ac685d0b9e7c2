import WireSchema.Proofs.Wire.Delimited

namespace WireSchema

open Outcome

namespace Codec

variable (c : Codec)

theorem readScalarValue_of_lt {t : Primitive} {bs : Bytes} (h : bs.length < t.width) :
    c.readScalarValue t bs = .error .endOfInput := by
  have hshort : (bs.take t.width).length < t.width := by
    rw [List.length_take]
    omega
  simp only [readScalarValue, readScalar, if_pos hshort]
  rfl

theorem exists_readScalarValue {t : Primitive} {bs : Bytes} (h : t.width ≤ bs.length) :
    ∃ v rest, c.readScalarValue t bs = .ok (v, rest) := by
  have hlong : ¬(bs.take t.width).length < t.width := by
    rw [List.length_take]
    omega
  simp only [readScalarValue, readScalar, if_neg hlong]
  exact ⟨_, _, rfl⟩

theorem readMany_scalars_eq_error {t : Primitive} {n : Nat} {done : List Value} {bs : Bytes}
    {e : CodecError} : readMany (c.readScalarValue t) done n bs = .error e ↔
      bs.length < n * t.width ∧ e = .endOfInput := by
  induction n generalizing done bs with
  | zero => simp [readMany]
  | succ n ih =>
      rw [readMany_succ, Nat.succ_mul]
      by_cases hfirst : t.width ≤ bs.length
      · obtain ⟨v, rest, hv⟩ := c.exists_readScalarValue hfirst
        have hlength := c.length_of_readScalarValue hv
        have hrest : rest.length < n * t.width ↔ bs.length < n * t.width + t.width := by omega
        rw [hv, ok_bind, ih, hrest]
      · have hshort : bs.length < n * t.width + t.width := by omega
        rw [c.readScalarValue_of_lt (Nat.lt_of_not_le hfirst), error_bind]
        simp [hshort, eq_comm (a := e)]

theorem drop_of_readMany_scalars {t : Primitive} {n : Nat} {bs rest : Bytes} {v : Value}
    (h : readMany (c.readScalarValue t) [] n bs = .ok (v, rest)) : rest = bs.drop (n * t.width) := by
  have hlength := c.length_of_readMany_scalars h
  obtain ⟨taken, rfl⟩ := (delimited_readMany (c.delimited_readScalarValue t) [] n).suffix h
  rw [List.length_append] at hlength
  rw [List.drop_left' (by omega)]

/-- A product that is too large for a word is larger than any input. -/
theorem lt_saturatingMul {length a b : Nat} (h : length < Nat.pow 2 63) :
    length < saturatingMul a b ↔ length < a * b := by
  have hpow : Nat.pow 2 64 = 2 * Nat.pow 2 63 := rfl
  rw [saturatingMul]
  split
  next => rfl
  next => omega

def plainField (decode : Object → Bytes → Decoded) (o : Object) (f : FieldPlan) (bs : Bytes) :
    Decoded :=
  match f.layout with
  | .scalarList t count => put o f.name do
    readMany (c.readScalarValue t) [] (← elementCount o f.name count) bs
  | _ => c.decodeField decode o f bs

def plainStep (decode : Object → Bytes → Decoded) (o : Object) (step : WireStep) (bs : Bytes) :
    Decoded :=
  match step with
  | .parent _ => c.decodeStep decode o step bs
  | .field f => c.plainField decode o f bs

def plainSteps (decode : Object → Bytes → Decoded) (o : Object) : List WireStep → Bytes → Decoded
  | [], bs => ⟨o, .ok bs⟩
  | step :: steps, bs =>
    let d := c.plainStep decode o step bs
    match d.rest with
    | .ok rest => plainSteps decode d.object steps rest
    | .error e => ⟨d.object, .error e⟩

def plainWithin : Nat → Object → Bytes → Decoded
  | 0, o, _ => ⟨o, .error (.tooDeep o.className)⟩
  | depth + 1, o, bs =>
    match c.plan o.className with
    | .error e => ⟨o, .error e⟩
    | .ok p => c.plainSteps (plainWithin depth) o p.wireSteps bs

def plainInto (o : Object) (bs : Bytes) : Decoded :=
  c.plainWithin (o.height + (bs.length + 2) * (c.plans.length + 1)) o bs

end Codec

/-- The same outcome, where it makes no difference how it is said that the input is too short. -/
def CodecError.Alike {α : Type} (x y : Except CodecError α) : Prop :=
  x = y ∨ ∃ e e', x = .error e ∧ y = .error e' ∧ e.IsShortInput ∧ e'.IsShortInput

structure Decoded.Alike (d d' : Decoded) : Prop where
  object : d.object = d'.object
  rest : CodecError.Alike d.rest d'.rest

namespace CodecError.Alike

variable {α β : Type} {x y : Except CodecError α}

theorem refl (x : Except CodecError α) : Alike x x :=
  .inl rfl

theorem bind {f g : α → Except CodecError β} (h : Alike x y)
    (hnext : ∀ a, x = .ok a → Alike (f a) (g a)) : Alike (x >>= f) (y >>= g) := by
  rcases h with rfl | ⟨e, e', rfl, rfl, he, he'⟩
  · cases x with
    | error e => exact refl _
    | ok a => exact hnext a rfl
  · exact .inr ⟨e, e', rfl, rfl, he, he'⟩

end CodecError.Alike

namespace Codec

open CodecError (Alike)

theorem alike_put {read read' : Except CodecError (Value × Bytes)} (h : Alike read read')
    (o : Object) (field : String) : (put o field read).Alike (put o field read') := by
  rcases h with rfl | ⟨e, e', rfl, rfl, he, he'⟩
  · exact ⟨rfl, .refl _⟩
  · exact ⟨rfl, .inr ⟨e, e', rfl, rfl, he, he'⟩⟩

theorem alike_readMany {read read' : Bytes → Except CodecError (Value × Bytes)}
    (hread : Delimited read) (h : ∀ bs, bs.length < Nat.pow 2 63 → Alike (read bs) (read' bs))
    (n : Nat) (done : List Value) {bs : Bytes} (hbs : bs.length < Nat.pow 2 63) :
    Alike (readMany read done n bs) (readMany read' done n bs) := by
  induction n generalizing done bs with
  | zero => exact .refl _
  | succ n ih =>
      rw [readMany_succ, readMany_succ]
      apply (h bs hbs).bind
      rintro ⟨v, rest⟩ hv
      exact ih (v :: done) (Nat.lt_of_le_of_lt (hread.suffix hv).length_le hbs)

variable (c : Codec)

theorem alike_readScalars (className field : String) (t : Primitive) (n : Nat) {bs : Bytes}
    (hbs : bs.length < Nat.pow 2 63) : Alike (c.readScalars className field t n bs)
      (readMany (c.readScalarValue t) [] n bs) := by
  rw [readScalars]
  split
  next hshort =>
    have hloop : readMany (c.readScalarValue t) [] n bs = .error .endOfInput :=
      c.readMany_scalars_eq_error.2 ⟨(lt_saturatingMul hbs).1 hshort, rfl⟩
    exact .inr ⟨_, _, rfl, hloop, trivial, trivial⟩
  next => exact .refl _

section Steps

variable {decode decode' : Object → Bytes → Decoded}
  (hdecode : ∀ o, Delimited fun bs => (decode o bs).outcome)
  (h : ∀ o bs, bs.length < Nat.pow 2 63 → (decode o bs).Alike (decode' o bs))

include hdecode h

theorem alike_readObjects (name : String) (n : Nat) {bs : Bytes} (hbs : bs.length < Nat.pow 2 63) :
    Alike (readMany (c.readObject decode name) [] n bs)
      (readMany (c.readObject decode' name) [] n bs) := by
  apply alike_readMany (c.delimited_readObject hdecode name) _ n [] hbs
  intro bs hbs
  apply (Alike.refl (c.instantiate name)).bind
  intro o _
  apply (h o bs hbs).rest.bind
  intro rest _
  rw [(h o bs hbs).object]
  exact .refl _

theorem alike_plainField (o : Object) (f : FieldPlan) {bs : Bytes} (hbs : bs.length < Nat.pow 2 63) :
    (c.decodeField decode o f bs).Alike (c.plainField decode' o f bs) := by
  rw [decodeField, plainField, decodeField]
  cases f.layout with
  | scalar t | lengthOf t _ | fixedScalars t _ => exact ⟨rfl, .refl _⟩
  | fixedNested name n => exact alike_put (c.alike_readObjects hdecode h name n hbs) o f.name
  | scalarList t count =>
      apply alike_put
      apply (Alike.refl (elementCount o f.name count)).bind
      intro n _
      exact c.alike_readScalars o.className f.name t n hbs
  | nestedList name count =>
      apply alike_put
      apply (Alike.refl (elementCount o f.name count)).bind
      intro n _
      exact c.alike_readObjects hdecode h name n hbs
  | nested name =>
      cases o.own? f.name with
      | none => exact ⟨rfl, .refl _⟩
      | some v =>
          cases v with
          | object part =>
              have hpart := h part bs hbs
              refine ⟨?_, hpart.rest⟩
              simp only [hpart.object]
          | scalar s => exact ⟨rfl, .refl _⟩
          | list vs => exact ⟨rfl, .refl _⟩

theorem alike_plainStep (o : Object) (step : WireStep) {bs : Bytes} (hbs : bs.length < Nat.pow 2 63) :
    (c.decodeStep decode o step bs).Alike (c.plainStep decode' o step bs) := by
  cases step with
  | field f => exact c.alike_plainField hdecode h o f hbs
  | parent name =>
      rw [plainStep, decodeStep, decodeStep]
      cases o.parent with
      | none => exact ⟨rfl, .refl _⟩
      | some part => exact ⟨congrArg o.withParent (h part bs hbs).object, (h part bs hbs).rest⟩

theorem alike_plainSteps (steps : List WireStep) (o : Object) {bs : Bytes}
    (hbs : bs.length < Nat.pow 2 63) :
    (c.decodeSteps decode o steps bs).Alike (c.plainSteps decode' o steps bs) := by
  induction steps generalizing o bs with
  | nil => exact ⟨rfl, .refl _⟩
  | cons step steps ih =>
      obtain ⟨hobject, hrest⟩ := c.alike_plainStep hdecode h o step hbs
      have hdelimited := c.delimited_decodeStep hdecode o step
      rw [decodeSteps, plainSteps]
      simp only [← hobject]
      rcases hrest with hrest | ⟨e, e', he, he', hshort, hshort'⟩
      · rw [← hrest]
        cases hd : (c.decodeStep decode o step bs).rest with
        | error e => exact ⟨rfl, .refl _⟩
        | ok rest =>
            have houtcome : (c.decodeStep decode o step bs).outcome =
                .ok ((c.decodeStep decode o step bs).object, rest) := by
              rw [Decoded.outcome, hd]
              rfl
            exact ih _ (Nat.lt_of_le_of_lt (hdelimited.suffix houtcome).length_le hbs)
      · rw [he, he']
        exact ⟨rfl, .inr ⟨e, e', rfl, rfl, hshort, hshort'⟩⟩

end Steps

theorem alike_plainWithin (depth : Nat) (o : Object) {bs : Bytes} (hbs : bs.length < Nat.pow 2 63) :
    (c.decodeWithin depth o bs).Alike (c.plainWithin depth o bs) := by
  induction depth generalizing o bs with
  | zero => exact ⟨rfl, .refl _⟩
  | succ depth ih =>
      rw [decodeWithin, plainWithin]
      cases c.plan o.className with
      | error e => exact ⟨rfl, .refl _⟩
      | ok p =>
          apply c.alike_plainSteps (c.delimited_decodeWithin depth) _ p.wireSteps o hbs
          intro q bs hbs
          exact ih q hbs

/-- The number of scalars in a list is refused exactly if reading them one after the other comes to
the end of the input. So the scalars are read with the comparison if and only if they are without it,
and then they are the same and end at the same place; otherwise both ways fail for lack of input. The
same holds for decoding as a whole. -/
theorem decodeInto_elementWise {bs : Bytes} (hbs : bs.length < Nat.pow 2 63) :
    (∀ (className field : String) (t : Primitive) (n : Nat),
      (bs.length < saturatingMul n t.width ↔
        ∃ e, readMany (c.readScalarValue t) [] n bs = .error e) ∧
      (∀ v rest, c.readScalars className field t n bs = .ok (v, rest) ↔
        readMany (c.readScalarValue t) [] n bs = .ok (v, rest)) ∧
      ((∃ v, c.readScalars className field t n bs = .ok (v, bs.drop (n * t.width))) ∨
        c.readScalars className field t n bs = .error (.tooManyElements className field n) ∧
        readMany (c.readScalarValue t) [] n bs = .error .endOfInput)) ∧
    ∀ o, (c.decodeInto o bs).Alike (c.plainInto o bs) := by
  refine ⟨?_, fun o => c.alike_plainWithin _ o hbs⟩
  intro className field t n
  refine ⟨?_, fun v rest => c.readScalars_eq_ok, ?_⟩
  · rw [lt_saturatingMul hbs]
    simp [readMany_scalars_eq_error]
  · cases hloop : readMany (c.readScalarValue t) [] n bs with
    | ok x =>
        obtain ⟨v, rest⟩ := x
        obtain rfl := c.drop_of_readMany_scalars hloop
        exact .inl ⟨v, c.readScalars_eq_ok.2 hloop⟩
    | error e =>
        obtain ⟨hshort, rfl⟩ := c.readMany_scalars_eq_error.1 hloop
        refine .inr ⟨?_, rfl⟩
        rw [readScalars, if_pos ((lt_saturatingMul hbs).2 hshort)]

theorem decodeInto_elementWise_overflow :
    (Nat.pow 2 61 + 1) * Primitive.long.width % Nat.pow 2 64 = 8 ∧
    ∃ e, readMany ((⟨[], .big⟩ : Codec).readScalarValue .long) [] (Nat.pow 2 61 + 1)
      [0, 0, 0, 0, 0, 0, 0, 1] = .error e := by
  refine ⟨by decide, ?_⟩
  have hagree := (decodeInto_elementWise ⟨[], .big⟩
    (by decide : [0, 0, 0, 0, 0, 0, 0, (1 : UInt8)].length < Nat.pow 2 63)).1
  exact (hagree "A" "v" .long (Nat.pow 2 61 + 1)).1.1 (by decide)

end Codec

end WireSchema
