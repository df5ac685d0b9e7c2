import WireSchema.Proofs.Outcome
import WireSchema.Wire.Decode

namespace WireSchema

open Outcome

def CodecError.IsShortInput : CodecError → Prop
  | endOfInput | tooManyElements .. => True
  | _ => False

def Decoded.outcome (d : Decoded) : Except CodecError (Object × Bytes) :=
  d.rest.map (d.object, ·)

theorem Decoded.outcome_eq_ok {d : Decoded} {o : Object} {rest : Bytes} :
    d.outcome = .ok (o, rest) ↔ d = ⟨o, .ok rest⟩ := by
  obtain ⟨o', r⟩ := d
  cases r <;> simp [outcome, Except.map]

theorem Decoded.outcome_eq_error {d : Decoded} {e : CodecError} :
    d.outcome = .error e ↔ d.rest = .error e :=
  map_eq_error

namespace Codec

variable {α β : Type}

/-- `read` takes a part at the start of the input: with anything else behind that part it gives the
same, and less than that part is too short for it. -/
def Delimited (read : Bytes → Except CodecError (α × Bytes)) : Prop :=
  ∀ bs a rest, read bs = .ok (a, rest) → ∃ taken, bs = taken ++ rest ∧
    (∀ other, read (taken ++ other) = .ok (a, other)) ∧
    ∀ cut, cut <+: taken → cut ≠ taken → ∃ e, read cut = .error e ∧ e.IsShortInput

namespace Delimited

theorem ok (a : α) : Delimited fun bs => .ok (a, bs) := by
  intro bs b rest h
  cases h
  refine ⟨[], rfl, fun _ => rfl, ?_⟩
  intro cut hcut hne
  exact absurd (List.prefix_nil.1 hcut) hne

theorem error (e : CodecError) : Delimited fun _ => (.error e : Except CodecError (α × Bytes)) := by
  intro bs a rest h
  cases h

theorem prefix_append {cut xs ys : Bytes} (h : cut <+: xs ++ ys) (hne : cut ≠ xs ++ ys) :
    (cut <+: xs ∧ cut ≠ xs) ∨ ∃ tail, cut = xs ++ tail ∧ tail <+: ys ∧ tail ≠ ys := by
  rcases List.prefix_or_prefix_of_prefix h (List.prefix_append xs ys) with hcut | ⟨tail, rfl⟩
  · by_cases heq : cut = xs
    · refine .inr ⟨[], by simp [heq], List.nil_prefix, ?_⟩
      rintro rfl
      exact hne (by simp [heq])
    · exact .inl ⟨hcut, heq⟩
  · refine .inr ⟨tail, rfl, (List.prefix_append_right_inj xs).1 h, ?_⟩
    rintro rfl
    exact hne rfl

theorem bind {read : Bytes → Except CodecError (α × Bytes)}
    {next : α → Bytes → Except CodecError (β × Bytes)} (hread : Delimited read)
    (hnext : ∀ a, Delimited (next a)) : Delimited fun bs => read bs >>= fun x => next x.1 x.2 := by
  intro bs b rest h
  obtain ⟨⟨a, middle⟩, ha, hb⟩ := bind_eq_ok.1 h
  obtain ⟨first, rfl, hfirst, hshort⟩ := hread bs a middle ha
  obtain ⟨second, rfl, hsecond, hshort'⟩ := hnext a middle b rest hb
  refine ⟨first ++ second, by simp, ?_, ?_⟩
  · intro other
    rw [List.append_assoc]
    exact bind_eq_ok.2 ⟨_, hfirst _, hsecond other⟩
  · intro cut hcut hne
    rcases prefix_append hcut hne with ⟨hcut, hne⟩ | ⟨tail, rfl, htail, hne⟩
    · obtain ⟨e, he, hio⟩ := hshort cut hcut hne
      exact ⟨e, bind_eq_error.2 (.inl he), hio⟩
    · obtain ⟨e, he, hio⟩ := hshort' tail htail hne
      exact ⟨e, bind_eq_error.2 (.inr ⟨_, hfirst tail, he⟩), hio⟩

theorem after {x : Except CodecError α} {read : α → Bytes → Except CodecError (β × Bytes)}
    (h : ∀ a, Delimited (read a)) : Delimited fun bs => x >>= fun a => read a bs := by
  cases x with
  | error e => exact error e
  | ok a => exact h a

theorem map {read : Bytes → Except CodecError (α × Bytes)} (f : α → β) (h : Delimited read) :
    Delimited fun bs => (read bs).map fun x => (f x.1, x.2) := by
  have heq : (fun bs => (read bs).map fun x => (f x.1, x.2)) =
      fun bs => read bs >>= fun x => .ok (f x.1, x.2) := by
    funext bs
    cases read bs <;> rfl
  rw [heq]
  exact h.bind fun a => ok (f a)

theorem suffix {read : Bytes → Except CodecError (α × Bytes)} (h : Delimited read) {bs rest : Bytes}
    {a : α} (hread : read bs = .ok (a, rest)) : rest <:+ bs := by
  obtain ⟨taken, rfl, -⟩ := h bs a rest hread
  exact List.suffix_append taken rest

end Delimited

variable (c : Codec)

theorem delimited_readScalar (t : Primitive) : Delimited (c.readScalar t) := by
  intro bs s rest h
  simp only [readScalar] at h
  split at h
  · cases h
  · next hlength =>
    cases h
    have hwidth : (bs.take t.width).length = t.width := by
      simp only [List.length_take] at hlength ⊢
      omega
    refine ⟨bs.take t.width, by simp, ?_, ?_⟩
    · intro other
      simp [readScalar, List.take_left' hwidth, List.drop_left' hwidth, hwidth]
    · intro cut hcut hne
      have hshort : cut.length < t.width := by
        by_contra hle
        exact hne (hcut.eq_of_length (by have := hcut.length_le; omega))
      refine ⟨.endOfInput, ?_, trivial⟩
      simp only [readScalar]
      rw [if_pos (by rw [List.length_take]; omega)]

theorem delimited_readScalarValue (t : Primitive) : Delimited (c.readScalarValue t) :=
  (c.delimited_readScalar t).map Value.scalar

theorem readMany_succ (read : Bytes → Except CodecError (Value × Bytes)) (done : List Value) (n : Nat)
    (bs : Bytes) : readMany read done (n + 1) bs =
      read bs >>= fun x => readMany read (x.1 :: done) n x.2 := by
  rw [readMany]
  cases read bs <;> rfl

theorem delimited_readMany {read : Bytes → Except CodecError (Value × Bytes)} (h : Delimited read)
    (done : List Value) (n : Nat) : Delimited (readMany read done n) := by
  induction n generalizing done with
  | zero => exact Delimited.ok _
  | succ n ih =>
      simp only [funext (readMany_succ read done n)]
      exact h.bind fun v => ih (v :: done)

theorem length_of_readScalarValue {t : Primitive} {bs rest : Bytes} {v : Value}
    (h : c.readScalarValue t bs = .ok (v, rest)) : bs.length = t.width + rest.length := by
  simp only [readScalarValue, readScalar] at h
  split at h
  · cases h
  · next hlength =>
    cases h
    simp only [List.length_take, List.length_drop] at hlength ⊢
    omega

theorem length_of_readMany_scalars {t : Primitive} {n : Nat} {done : List Value} {bs rest : Bytes}
    {v : Value} (h : readMany (c.readScalarValue t) done n bs = .ok (v, rest)) :
    bs.length = n * t.width + rest.length := by
  induction n generalizing done bs with
  | zero =>
      cases h
      simp
  | succ n ih =>
      rw [readMany_succ] at h
      obtain ⟨⟨w, middle⟩, hw, h⟩ := bind_eq_ok.1 h
      have hrest : middle.length = n * t.width + rest.length := ih h
      have hmiddle := c.length_of_readScalarValue hw
      rw [Nat.succ_mul]
      omega

theorem saturatingMul_le (a b : Nat) : saturatingMul a b ≤ a * b := by
  rw [saturatingMul]
  split
  next => exact Nat.le_refl _
  next h => exact Nat.le_trans (Nat.sub_le _ _) (Nat.le_of_not_lt h)

/-- The number of scalars is compared with the whole input, but all that counts is whether they are
all there. -/
theorem readScalars_eq_ok {className field : String} {t : Primitive} {n : Nat} {bs rest : Bytes}
    {v : Value} : c.readScalars className field t n bs = .ok (v, rest) ↔
      readMany (c.readScalarValue t) [] n bs = .ok (v, rest) := by
  rw [readScalars]
  split
  next hshort =>
    constructor
    · intro h
      cases h
    · intro h
      have hlength := c.length_of_readMany_scalars h
      have hle := saturatingMul_le n t.width
      omega
  next => rfl

theorem delimited_readScalars (className field : String) (t : Primitive) (n : Nat) :
    Delimited (c.readScalars className field t n) := by
  intro bs v rest h
  obtain ⟨taken, rfl, hother, hcut⟩ := delimited_readMany (c.delimited_readScalarValue t) [] n bs v
    rest (c.readScalars_eq_ok.1 h)
  refine ⟨taken, rfl, fun other => c.readScalars_eq_ok.2 (hother other), ?_⟩
  intro cut hpart hne
  rw [readScalars]
  split
  next => exact ⟨_, rfl, trivial⟩
  next => exact hcut cut hpart hne

theorem delimited_readScalarList (o : Object) (field : String) (t : Primitive) (count : CountSource) :
    Delimited (c.readScalarList o field t count) :=
  Delimited.after fun n => c.delimited_readScalars o.className field t n

section Steps

variable {decode : Object → Bytes → Decoded}

theorem delimited_readObject (h : ∀ o, Delimited fun bs => (decode o bs).outcome) (name : String) :
    Delimited (c.readObject decode name) := by
  refine Delimited.after fun new => ?_
  have heq : (fun bs => do
      let d := decode new bs
      return (Value.object d.object, ← d.rest)) =
      fun bs => (decode new bs).outcome.map fun x => (.object x.1, x.2) := by
    funext bs
    simp only [Decoded.outcome]
    cases (decode new bs).rest <;> rfl
  rw [heq]
  exact (h new).map Value.object

theorem exists_of_put {o o' : Object} {field : String} {read : Except CodecError (Value × Bytes)}
    {rest : Bytes} (h : put o field read = ⟨o', .ok rest⟩) :
    ∃ v, read = .ok (v, rest) ∧ o.setOwn? field v = some o' := by
  cases read with
  | error e => cases h
  | ok x =>
      obtain ⟨v, rest'⟩ := x
      simp only [put] at h
      split at h
      next changed hset =>
        cases h
        exact ⟨v, rfl, hset⟩
      next => cases h

theorem error_of_put {o : Object} {field : String} {read : Except CodecError (Value × Bytes)}
    {error : CodecError} (hset : ∀ v rest, read = .ok (v, rest) → ∃ o', o.setOwn? field v = some o')
    (h : (put o field read).rest = .error error) : read = .error error := by
  cases read with
  | error e =>
      cases h
      rfl
  | ok x =>
      obtain ⟨v, rest⟩ := x
      obtain ⟨o', hset⟩ := hset v rest rfl
      simp only [put, hset] at h
      cases h

theorem delimited_put {o : Object} {field : String} {read : Bytes → Except CodecError (Value × Bytes)}
    (h : Delimited read) : Delimited fun bs => (put o field (read bs)).outcome := by
  have heq : (fun bs => (put o field (read bs)).outcome) =
      fun bs => read bs >>= fun x => (put o field (.ok (x.1, x.2))).outcome := by
    funext bs
    cases read bs <;> rfl
  have hnext (v : Value) : Delimited fun bs => (put o field (.ok (v, bs))).outcome := by
    simp only [put]
    cases o.setOwn? field v with
    | some changed => exact Delimited.ok changed
    | none => exact Delimited.error _
  rw [heq]
  exact h.bind hnext

theorem delimited_part (h : ∀ o, Delimited fun bs => (decode o bs).outcome) (part : Object)
    (whole : Object → Object) :
    Delimited fun bs => (⟨whole (decode part bs).object, (decode part bs).rest⟩ : Decoded).outcome := by
  have heq : (fun bs =>
      (⟨whole (decode part bs).object, (decode part bs).rest⟩ : Decoded).outcome) =
      fun bs => (decode part bs).outcome.map fun x => (whole x.1, x.2) := by
    funext bs
    simp only [Decoded.outcome]
    cases (decode part bs).rest <;> rfl
  rw [heq]
  exact (h part).map whole

theorem delimited_decodeStep (h : ∀ o, Delimited fun bs => (decode o bs).outcome) (o : Object)
    (step : WireStep) : Delimited fun bs => (c.decodeStep decode o step bs).outcome := by
  cases step with
  | parent name =>
      simp only [decodeStep]
      cases o.parent with
      | none => exact Delimited.error _
      | some part => exact delimited_part h part o.withParent
  | field f =>
      simp only [decodeStep, decodeField]
      cases f.layout with
      | scalar t | lengthOf t _ => exact delimited_put (c.delimited_readScalarValue t)
      | fixedScalars t n =>
          exact delimited_put (delimited_readMany (c.delimited_readScalarValue t) [] n)
      | fixedNested name n =>
          exact delimited_put (delimited_readMany (c.delimited_readObject h name) [] n)
      | scalarList t count => exact delimited_put (c.delimited_readScalarList o f.name t count)
      | nestedList name count =>
          exact delimited_put (Delimited.after fun n =>
            delimited_readMany (c.delimited_readObject h name) [] n)
      | nested name =>
          cases o.own? f.name with
          | none => exact Delimited.error _
          | some v =>
              cases v with
              | object part =>
                  exact delimited_part h part fun q => (o.setOwn? f.name (.object q)).getD o
              | scalar s => exact Delimited.error _
              | list vs => exact Delimited.error _

theorem outcome_decodeSteps_cons (o : Object) (step : WireStep) (steps : List WireStep) (bs : Bytes) :
    (c.decodeSteps decode o (step :: steps) bs).outcome =
      (c.decodeStep decode o step bs).outcome >>= fun x =>
        (c.decodeSteps decode x.1 steps x.2).outcome := by
  simp only [decodeSteps]
  generalize c.decodeStep decode o step bs = d
  obtain ⟨o', rest⟩ := d
  cases rest <;> rfl

theorem delimited_decodeSteps (h : ∀ o, Delimited fun bs => (decode o bs).outcome) (o : Object)
    (steps : List WireStep) : Delimited fun bs => (c.decodeSteps decode o steps bs).outcome := by
  induction steps generalizing o with
  | nil => exact Delimited.ok o
  | cons step steps ih =>
      simp only [c.outcome_decodeSteps_cons]
      exact (c.delimited_decodeStep h o step).bind ih

end Steps

theorem delimited_decodeWithin (depth : Nat) (o : Object) :
    Delimited fun bs => (c.decodeWithin depth o bs).outcome := by
  induction depth generalizing o with
  | zero => exact Delimited.error _
  | succ depth ih =>
      simp only [decodeWithin]
      cases c.plan o.className with
      | error e => exact Delimited.error e
      | ok p => exact c.delimited_decodeSteps ih o p.wireSteps

end Codec

end WireSchema
