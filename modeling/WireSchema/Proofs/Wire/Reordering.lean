import WireSchema.Proofs.Plan.Reordering
import WireSchema.Proofs.Wire.Comparison
import WireSchema.Proofs.Wire.Measure
import WireSchema.Wire.Decode

namespace WireSchema.Codec

open Outcome

structure Agree (c c' : Codec) : Prop where
  plan : ∀ name, c.plan name = c'.plan name
  endian : c.endian = c'.endian
  length : c.plans.length = c'.plans.length

variable {c c' : Codec}

theorem sizeTerm_congr {o : Object} (ih : ∀ q : Object, q.height < o.height → c.size q = c'.size q)
    (term : SizeTerm) : c.sizeTerm o term = c'.sizeTerm o term := by
  cases term with
  | parent name =>
      exact bind_congr_ok fun q hq => ih q (Object.parent_height_lt (Object.needParent_eq_ok.1 hq))
  | bytes field count => rfl
  | perElement field width => rfl
  | nested field className =>
      refine bind_congr_ok fun v hv => ?_
      cases v with
      | scalar s => rfl
      | list vs => rfl
      | object q => exact ih q (Object.own_height_lt (Object.needOwn_eq_ok.1 hv))
  | elementSum field className =>
      refine bind_congr_ok fun vs hvs => ?_
      congr 1
      apply mapM_congr
      intro v hv
      cases v with
      | scalar s => rfl
      | list vs => rfl
      | object q => exact ih q (Object.item_height_lt (Object.needList_eq_ok.1 hvs) hv)

theorem termDifferences_congr {a b : Object} (ih : ∀ q : Object, q.height < a.height → ∀ lead q',
    c.differencesAt lead q q' = c'.differencesAt lead q q') (lead : String) (term : EqualityTerm) :
    c.termDifferences lead a b term = c'.termDifferences lead a b term := by
  cases term with
  | parent name =>
      refine bind_congr_ok fun q hq => bind_congr_ok fun q' _ => ?_
      exact ih q (Object.parent_height_lt (Object.needParent_eq_ok.1 hq)) lead q'
  | value f =>
      obtain ⟨name, comment, layout, default, text⟩ := f
      cases layout with
      | nested className =>
          refine bind_congr_ok fun q hq => bind_congr_ok fun q' _ => ?_
          exact ih q (Object.own_height_lt (Object.needObject_eq_ok.1 hq)) _ q'
      | _ => rfl
  | elements f =>
      refine bind_congr_ok fun xs hxs => bind_congr_ok fun ys _ => ?_
      congr 2
      apply mapM_congr
      rintro ⟨⟨x, y⟩, i⟩ hmem
      have hx : x ∈ xs := (List.of_mem_zip (List.fst_mem_of_mem_zipIdx hmem)).1
      cases x with
      | object q =>
          cases y with
          | object q' => exact ih q (Object.item_height_lt (Object.needList_eq_ok.1 hxs) hx) _ q'
          | _ => rfl
      | _ => rfl

namespace Agree

variable (h : c.Agree c')
include h

theorem instantiateWithin (depth : Nat) : c.instantiateWithin depth = c'.instantiateWithin depth := by
  funext name
  induction depth generalizing name with
  | zero => rfl
  | succ depth ih => simp only [Codec.instantiateWithin, h.plan, funext ih]

theorem instantiate : c.instantiate = c'.instantiate := by
  funext name
  rw [Codec.instantiate, Codec.instantiate, h.length, h.instantiateWithin]

theorem readScalarValue : c.readScalarValue = c'.readScalarValue := by
  funext t bs
  simp only [Codec.readScalarValue, readScalar, h.endian]

theorem decodeSteps (decode : Object → Bytes → Decoded) (o : Object) (steps : List WireStep)
    (bs : Bytes) : c.decodeSteps decode o steps bs = c'.decodeSteps decode o steps bs := by
  have hread : c.readObject decode = c'.readObject decode := by
    funext name bs
    simp only [readObject, h.instantiate]
  have hfield (o : Object) (f : FieldPlan) (bs : Bytes) :
      c.decodeField decode o f bs = c'.decodeField decode o f bs := by
    simp only [decodeField, readScalarList, readScalars, readObjectList, h.readScalarValue, hread]
  induction steps generalizing o bs with
  | nil => rfl
  | cons step steps ih => simp only [Codec.decodeSteps, decodeStep, hfield, ih]

theorem decodeWithin (depth : Nat) : c.decodeWithin depth = c'.decodeWithin depth := by
  induction depth with
  | zero => rfl
  | succ depth ih =>
      funext o bs
      simp only [Codec.decodeWithin, h.plan, h.decodeSteps, ih]

theorem decodeInto : c.decodeInto = c'.decodeInto := by
  funext o bs
  rw [Codec.decodeInto, Codec.decodeInto, h.length, h.decodeWithin]

theorem decode : c.decode = c'.decode := by
  funext name bs
  simp only [Codec.decode, h.instantiate, h.decodeInto]

theorem encodeScalar : c.encodeScalar = c'.encodeScalar := by
  funext className field t v
  simp only [Codec.encodeScalar, h.endian]

theorem encodeStep {o : Object} (ih : ∀ q : Object, q.height < o.height → c.encode q = c'.encode q)
    (step : WireStep) : c.encodeStep o step = c'.encodeStep o step := by
  cases step with
  | parent name =>
      exact bind_congr_ok fun q hq => ih q (Object.parent_height_lt (Object.needParent_eq_ok.1 hq))
  | field f =>
      obtain ⟨name, comment, layout, default, text⟩ := f
      cases layout with
      | scalar t => simp only [Codec.encodeStep, encodeField, h.encodeScalar]
      | lengthOf t list => simp only [Codec.encodeStep, encodeField, encodeLength, h.endian]
      | fixedScalars t length | scalarList t count =>
          simp only [Codec.encodeStep, encodeField, encodeScalars, h.encodeScalar]
      | nested className =>
          refine bind_congr_ok fun v hv => ?_
          cases v with
          | scalar s => rfl
          | list vs => rfl
          | object q => simp only [ih q (Object.own_height_lt (Object.needOwn_eq_ok.1 hv))]
      | fixedNested className length | nestedList className count =>
          refine bind_congr_ok fun vs hvs => bind_congr_ok fun _ _ => ?_
          congr 1
          apply mapM_congr
          intro v hv
          cases v with
          | scalar s => rfl
          | list vs => rfl
          | object q => exact ih q (Object.item_height_lt (Object.needList_eq_ok.1 hvs) hv)

theorem encode (o : Object) : c.encode o = c'.encode o := by
  rw [encode_eq, encode_eq, h.plan]
  refine bind_congr_ok fun p _ => ?_
  congr 1
  exact mapM_congr fun step _ => h.encodeStep (fun q _ => encode q) step
termination_by o.height

theorem size (o : Object) : c.size o = c'.size o := by
  rw [size_eq, size_eq, h.plan]
  refine bind_congr_ok fun p _ => bind_congr_ok fun terms _ => ?_
  congr 1
  exact mapM_congr fun term _ => sizeTerm_congr (fun q _ => size q) term
termination_by o.height

theorem differencesAt (lead : String) (a b : Object) :
    c.differencesAt lead a b = c'.differencesAt lead a b := by
  rw [differencesAt_eq, differencesAt_eq, h.plan]
  congr 1
  refine bind_congr_ok fun p _ => ?_
  congr 1
  exact mapM_congr fun term _ => termDifferences_congr (fun q _ lead q' => differencesAt lead q q') lead term
termination_by a.height

end Agree

theorem agree_ofRegistry {r r' : Registry} (h : ClassDef.Agree r.classes r'.classes)
    (hlength : r.classes.length = r'.classes.length) (e : Endian) :
    (ofRegistry r e).Agree (ofRegistry r' e) where
  plan name := by
    simp only [Codec.plan, ofRegistry, Plan.all, lookup_named, h name, Plan.build_congr h]
  endian := rfl
  length := by simp [ofRegistry, Plan.all, hlength]

end WireSchema.Codec
