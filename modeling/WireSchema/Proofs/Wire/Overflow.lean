import WireSchema.Proofs.Wire.Equality
import WireSchema.Proofs.Wire.Inheritance
import WireSchema.Proofs.Wire.Measure

namespace WireSchema

open Outcome

namespace Codec

variable (c : Codec)

/-- The fields of an object and of the objects inside it in their order on the wire, each with the
object that it is a field of. -/
def wireFields (o : Object) : List (Object × FieldPlan) :=
  match c.plan o.className with
  | .error _ => []
  | .ok p => p.wireSteps.flatMap fun step =>
    step.field?.toList.map (o, ·) ++ (step.parts o).attach.flatMap fun q => wireFields q.val
termination_by o.height
decreasing_by exact WireStep.height_lt_of_mem_parts q.property

def stepFields (o : Object) (step : WireStep) : List (Object × FieldPlan) :=
  step.field?.toList.map (o, ·) ++ (step.parts o).flatMap c.wireFields

variable {c}

theorem wireFields_eq {o : Object} {p : Plan} (hp : c.plan o.className = .ok p) :
    c.wireFields o = p.wireSteps.flatMap (c.stepFields o) := by
  rw [wireFields, hp]
  apply congrArg (p.wireSteps.flatMap ·)
  funext step
  apply congrArg (step.field?.toList.map (o, ·) ++ ·)
  rw [List.flatMap_subtype (g := c.wireFields) fun _ _ => rfl, List.unattach_attach]

/-- The error for a field that is written as the length of a list and is too narrow for it. -/
def overflow? (x : Object × FieldPlan) : Option CodecError :=
  match x.2.layout with
  | .lengthOf t list => (x.1.listLength? list).bind fun n =>
    if t.inRange n then none else some (.lengthOverflow x.1.className x.2.name n t)
  | _ => none

theorem overflow?_eq_some {x : Object × FieldPlan} {e : CodecError} : overflow? x = some e ↔
    ∃ t list n, x.2.layout = .lengthOf t list ∧ x.1.listLength? list = some n ∧
      ¬t.inRange n ∧ e = .lengthOverflow x.1.className x.2.name n t := by
  rw [overflow?]
  cases x.2.layout with
  | lengthOf t list =>
      simp only [Layout.lengthOf.injEq, Option.bind_eq_some_iff]
      constructor
      · rintro ⟨n, hn, he⟩
        split at he
        next => cases he
        next hrange => exact ⟨t, list, n, ⟨rfl, rfl⟩, hn, hrange, (Option.some.inj he).symm⟩
      · rintro ⟨_, _, n, ⟨rfl, rfl⟩, hn, hrange, rfl⟩
        exact ⟨n, hn, if_neg hrange⟩
  | _ => simp

def LengthsFit (c : Codec) (o : Object) : Prop :=
  ∀ p, c.plan o.className = .ok p → ∀ f ∈ p.fields, ∀ t list, f.layout = .lengthOf t list →
    ∀ n, o.listLength? list = some n → t.inRange n

theorem lengthsFit_iff {o : Object} : c.LengthsFit o ↔
    ∀ p, c.plan o.className = .ok p → ∀ f ∈ p.fields, overflow? (o, f) = none := by
  apply forall_congr'
  intro p
  apply forall_congr'
  intro hp
  apply forall₂_congr
  intro f hf
  rw [Option.eq_none_iff_forall_ne_some]
  constructor
  · intro h e he
    obtain ⟨t, list, n, hl, hn, hrange, -⟩ := overflow?_eq_some.1 he
    exact hrange (h t list hl n hn)
  · intro h t list hl n hn
    by_contra hrange
    exact h _ (overflow?_eq_some.2 ⟨t, list, n, hl, hn, hrange, rfl⟩)

section Step

variable {o q : Object} {p : Plan} {f : FieldPlan} {name : String} {v : Value}

theorem object?_of_isElement {l : Layout} {w : Value} (hl : l.className? = none)
    (hw : w.IsElement l) : w.object? = none := by
  cases w with
  | object q => simp [Value.IsElement, hl] at hw
  | scalar s => rfl
  | list ws => rfl

theorem parts_of_hasShape (hv : o.own? f.name = some v) (h : v.HasShape f.layout) :
    (WireStep.field f).parts o = v.parts := by
  simp only [WireStep.parts, hv]
  cases v with
  | scalar s => cases f.layout <;> rfl
  | object q =>
      obtain ⟨hl, hq⟩ := h
      cases hlayout : f.layout <;> simp_all [Value.IsElement, Layout.className?, Layout.isList,
        Layout.isFixedList, Layout.isVariableList, Value.parts]
  | list vs =>
      obtain ⟨hl, -, hvs⟩ := h
      cases hlayout : f.layout with
      | fixedNested target n | nestedList target count => rfl
      | scalar t | lengthOf t list | nested target =>
          rw [hlayout] at hl
          cases hl
      | fixedScalars t n | scalarList t count =>
          rw [hlayout] at hvs
          apply Eq.symm
          apply List.filterMap_eq_nil_iff.2
          intro w hw
          exact object?_of_isElement rfl (hvs w hw)

theorem mem_parts_iff (hs : c.Sound) (ho : c.Conforms name o) (hp : c.plan o.className = .ok p) :
    q ∈ o.parts ↔ ∃ step ∈ p.wireSteps, q ∈ step.parts o := by
  obtain ⟨p', hp', hparent, hfields⟩ := ho.2.here
  rw [hp] at hp'
  cases hp'
  have hnodup : (o.fields.map Prod.fst).Nodup := by
    rw [map_name_of_forall₂ hfields]
    exact (hs hp).names
  constructor
  · intro hmem
    rcases Object.mem_parts.1 hmem with hq | ⟨e, he, hq⟩
    · refine ⟨.parent q.className, mem_wireSteps_parent.2 ?_, Option.mem_toList.2 hq⟩
      rw [← hparent, hq]
      rfl
    · obtain ⟨f, hf, hname, hshape⟩ := exists_left_of_mem hfields he
      have hown : o.own? f.name = some e.2 := hname ▸ Object.lookup_of_mem hnodup he
      exact ⟨.field f, mem_wireSteps_field.2 hf, by rwa [parts_of_hasShape hown hshape]⟩
  · rintro ⟨step, -, hq⟩
    exact WireStep.mem_parts_of_mem_parts hq

theorem mem_stepFields {step : WireStep} {x : Object × FieldPlan} : x ∈ c.stepFields o step ↔
    (∃ f, step = .field f ∧ x = (o, f)) ∨ ∃ q ∈ step.parts o, x ∈ c.wireFields q := by
  cases step with
  | parent target => simp [stepFields, WireStep.field?]
  | field f => simp [stepFields, WireStep.field?]

/-- What holds of all fields in the order of the wire holds of all fields of all objects inside. -/
theorem forall_wireFields {P : Object × FieldPlan → Prop} (hs : c.Sound) {name : String}
    {o : Object} (ho : c.Conforms name o) : (∀ x ∈ c.wireFields o, P x) ↔
      o.Every fun q => ∀ p, c.plan q.className = .ok p → ∀ f ∈ p.fields, P (q, f) := by
  obtain ⟨p, hp, -⟩ := ho.2.here
  have ih (q : Object) (hq : q ∈ o.parts) : (∀ x ∈ c.wireFields q, P x) ↔
      q.Every fun q => ∀ p, c.plan q.className = .ok p → ∀ f ∈ p.fields, P (q, f) := by
    obtain ⟨step, -, hpart⟩ := (mem_parts_iff hs ho hp).1 hq
    have hlt := WireStep.height_lt_of_mem_parts hpart
    exact forall_wireFields hs ⟨rfl, ho.2.parts hq⟩
  simp only [wireFields_eq hp, List.mem_flatMap, mem_stepFields]
  constructor
  · intro h
    refine .intro ?_ fun q hq => (ih q hq).1 fun x hx => ?_
    · intro p' hp' f hf
      rw [hp] at hp'
      cases hp'
      exact h (o, f) ⟨.field f, mem_wireSteps_field.2 hf, .inl ⟨f, rfl, rfl⟩⟩
    · obtain ⟨step, hstep, hpart⟩ := (mem_parts_iff hs ho hp).1 hq
      exact h x ⟨step, hstep, .inr ⟨q, hpart, hx⟩⟩
  · rintro h x ⟨step, hstep, ⟨f, rfl, rfl⟩ | ⟨q, hpart, hx⟩⟩
    · exact h.here p hp f (mem_wireSteps_field.1 hstep)
    · have hq := (mem_parts_iff hs ho hp).2 ⟨step, hstep, hpart⟩
      exact (ih q hq).2 (h.parts hq) x hx
termination_by o.height

end Step

section Failure

variable {o : Object} {p : Plan} {f : FieldPlan} {name : String} {v : Value}

theorem findSome?_flatMap {α β γ : Type} (f : β → Option γ) (g : α → List β) (xs : List α) :
    (xs.flatMap g).findSome? f = xs.findSome? fun x => (g x).findSome? f := by
  simp only [← List.head?_filterMap, List.filterMap_flatMap, List.head?_flatMap]

theorem findSome?_congr {α β : Type} {f g : α → Option β} {xs : List α}
    (h : ∀ x ∈ xs, f x = g x) : xs.findSome? f = xs.findSome? g := by
  rw [← List.head?_filterMap, ← List.head?_filterMap, List.filterMap_congr h]

def valueError? (c : Codec) (v : Value) : Option CodecError :=
  v.object?.bind fun q => error? (c.encode q)

theorem findSome?_parts (vs : List Value) :
    (Value.list vs).parts.findSome? (fun q => error? (c.encode q)) = vs.findSome? c.valueError? := by
  simp only [Value.parts, ← List.head?_filterMap, List.filterMap_filterMap]
  rfl

theorem error?_encodeScalar {l : Layout} {t : Primitive} (hl : l.scalarType? = some t)
    (hn : l.className? = none) (h : c.FitsElement l v) (className field : String) :
    error? (c.encodeScalar className field t v) = c.valueError? v := by
  obtain ⟨s, rfl⟩ := h.exists_scalar hn
  have ht : s.type = t := by
    rw [fitsElement_scalar, hl] at h
    exact (Option.some.inj h).symm
  rw [error?_eq_none.2 ⟨_, encodeScalar_eq_ok.2 ⟨s, rfl, ht, rfl⟩⟩]
  rfl

theorem error?_encodeItem {l : Layout} (hl : l.scalarType? = none) (h : c.FitsElement l v)
    (className field expected : String) :
    error? (c.encodeItem className field expected v) = c.valueError? v := by
  obtain ⟨q, _, rfl, -⟩ := h.exists_object hl
  rfl

theorem error?_encodeList {g : Value → Except CodecError Bytes} {vs : List Value}
    (hvs : o.own? f.name = some (.list vs))
    (hlength : ∀ n, f.layout.fixedLength? = some n → vs.length = n)
    (hg : ∀ w ∈ vs, error? (g w) = c.valueError? w) :
    error? (do
      let vs ← o.needList f.name
      checkLength o.className f.name f.layout vs.length
      return (← vs.mapM g).flatten) =
    (Value.list vs).parts.findSome? fun q => error? (c.encode q) := by
  rw [Object.needList_eq_ok.2 hvs, ok_bind, checkLength_eq_ok.2 hlength, ok_bind, findSome?_parts]
  apply (error?_bind_ok _ _).trans
  rw [error?_mapM]
  exact findSome?_congr hg

theorem error?_encodeField (hv : o.own? f.name = some v) (hfits : c.Fits f.layout v)
    (hl : ∀ t list, f.layout ≠ .lengthOf t list) :
    error? (c.encodeField o f) = v.parts.findSome? fun q => error? (c.encode q) := by
  rw [encodeField]
  cases hlayout : f.layout with
  | lengthOf t list => exact absurd hlayout (hl t list)
  | scalar t =>
      rw [hlayout] at hfits
      obtain ⟨s, rfl⟩ := (hfits.element rfl).exists_scalar rfl
      have h := error?_encodeScalar rfl rfl (hfits.element rfl) o.className f.name
      rw [Object.needOwn_eq_ok.2 hv]
      exact h
  | nested target =>
      rw [hlayout] at hfits
      obtain ⟨q, _, rfl, ⟨⟩, hq⟩ := (hfits.element rfl).exists_object rfl
      simp [encodePart, Object.needOwn_eq_ok.2 hv, hq.1, Value.parts]
  | fixedScalars t n | scalarList t count =>
      obtain ⟨vs, rfl, hlength, hvs⟩ := hfits.exists_list (by rw [hlayout]; rfl)
      apply error?_encodeList hv hlength
      intro w hw
      apply error?_encodeScalar (l := f.layout) (by rw [hlayout]; rfl) (by rw [hlayout]; rfl) (hvs w hw)
  | fixedNested target n | nestedList target count =>
      obtain ⟨vs, rfl, hlength, hvs⟩ := hfits.exists_list (by rw [hlayout]; rfl)
      apply error?_encodeList hv hlength
      intro w hw
      apply error?_encodeItem (l := f.layout) (by rw [hlayout]; rfl) (hvs w hw)

theorem error?_encodeLength (hs : c.Sound) (ho : c.Conforms name o) (hp : c.plan name = .ok p)
    (hf : f ∈ p.fields) {t : Primitive} {list : String} (hl : f.layout = .lengthOf t list) :
    error? (c.encodeField o f) = overflow? (o, f) := by
  obtain ⟨g, hg, rfl, count, hcount, -⟩ := (hs hp).counts hf hl
  obtain ⟨v, hv, hfits⟩ := exists_own? ho hp (hs hp) hg
  obtain ⟨vs, rfl, -⟩ := hfits.exists_list (isList_of_count? hcount)
  simp only [encodeField, hl, Object.needList_eq_ok.2 hv, ok_bind, overflow?,
    Object.listLength?_of_own? hv, Option.bind_some, encodeLength, Scalar.ofInt?]
  by_cases hrange : t.inRange vs.length
  · simp [hrange]
  · simp [hrange]

theorem error?_encodeStep (hs : c.Sound) (ho : c.Conforms name o) (hp : c.plan name = .ok p)
    (ih : ∀ q, q.height < o.height → ∀ target, c.Conforms target q →
      error? (c.encode q) = (c.wireFields q).findSome? overflow?)
    {step : WireStep} (hstep : step ∈ p.wireSteps) :
    error? (c.encodeStep o step) = (c.stepFields o step).findSome? overflow? := by
  rw [stepFields, List.findSome?_append, findSome?_flatMap]
  cases step with
  | parent target =>
      obtain ⟨q, hq, hconforms⟩ := exists_parent_of_plan ho (ho.1 ▸ hp) (mem_wireSteps_parent.1 hstep)
      have hpart := ih q (Object.parent_height_lt hq) target hconforms
      simp [encodeStep, Object.needParent_eq_ok.2 hq, WireStep.field?, WireStep.parts, hq, hpart]
  | field f =>
      have hf := mem_wireSteps_field.1 hstep
      obtain ⟨v, hv, hfits⟩ := exists_own? ho hp (hs hp) hf
      have hparts : v.parts.findSome? (fun q => (c.wireFields q).findSome? overflow?) =
          v.parts.findSome? fun q => error? (c.encode q) := by
        apply findSome?_congr
        intro q hq
        exact (ih q (Object.height_lt_of_own? hv hq) q.className ⟨rfl, hfits.2 q hq⟩).symm
      rw [parts_of_hasShape hv hfits.1, hparts]
      by_cases hl : ∃ t list, f.layout = .lengthOf t list
      · -- a scalar, so there are no objects in the field
        obtain ⟨t, list, hl⟩ := hl
        rw [hl] at hfits
        obtain ⟨s, rfl⟩ := (hfits.element rfl).exists_scalar rfl
        simp [encodeStep, error?_encodeLength hs ho hp hf hl, WireStep.field?, Value.parts]
      · have hne : ∀ t list, f.layout ≠ .lengthOf t list := fun t list heq => hl ⟨t, list, heq⟩
        have hnone : overflow? (o, f) = none := by
          rw [Option.eq_none_iff_forall_ne_some]
          intro e he
          obtain ⟨t, list, -, hlayout, -⟩ := overflow?_eq_some.1 he
          exact hne t list hlayout
        simp [encodeStep, error?_encodeField hv hfits hne, WireStep.field?, hnone]

end Failure

/-- Encoding an object of a class fails at the first field that is too narrow. -/
theorem error?_encode (hs : c.Sound) {name : String} {o : Object} (ho : c.Conforms name o) :
    error? (c.encode o) = (c.wireFields o).findSome? overflow? := by
  have ih (q : Object) (_ : q.height < o.height) (target : String) (hq : c.Conforms target q) :
      error? (c.encode q) = (c.wireFields q).findSome? overflow? := error?_encode hs hq
  obtain ⟨p, hp⟩ := ho.exists_plan
  have hp' : c.plan o.className = .ok p := ho.1 ▸ hp
  rw [encode_eq, hp', ok_bind, wireFields_eq hp', findSome?_flatMap]
  apply (error?_bind_ok _ _).trans
  rw [error?_mapM]
  apply findSome?_congr
  intro step hstep
  exact error?_encodeStep hs ho hp ih hstep
termination_by o.height

end Codec

/-- An object with so many elements, which have none. -/
def Object.sampleCrowded (k : Nat) : Object :=
  .sampleBase 0 (List.replicate k (.object (.sampleBase 0 [])))

namespace Codec

variable {c : Codec} {r : Registry} {o : Object} {bs : Bytes}

def PartBytes (c : Codec) (target : String) (q : Object) (bs : Bytes) : Prop :=
  q.className = target ∧ c.encode q = .ok bs

/-- The bytes of a field: those of its value, or of its elements one after the other. For a field that
counts a list they are those of the length that the list has. -/
inductive FieldBytes (c : Codec) (o : Object) (f : FieldPlan) : Bytes → Prop
  | length {t : Primitive} {list : String} {vs : List Value} {s : Scalar}
      (layout : f.layout = .lengthOf t list) (counted : o.own? list = some (.list vs))
      (type : s.type = t) (number : s.toInt? = some (vs.length : Int)) :
      FieldBytes c o f (s.toBytes c.endian)
  | single {v : Value} {bs : Bytes} (layout : ∀ t list, f.layout ≠ .lengthOf t list)
      (notList : f.layout.isList = false) (value : o.own? f.name = some v)
      (bytes : c.ElementOnWire c.PartBytes f.layout v bs) : FieldBytes c o f bs
  | elements {vs : List Value} {parts : List Bytes} (isList : f.layout.isList)
      (value : o.own? f.name = some (.list vs))
      (bytes : List.Forall₂ (c.ElementOnWire c.PartBytes f.layout) vs parts) :
      FieldBytes c o f parts.flatten

def OwnBytes (c : Codec) (r : Registry) (o : Object) (bs : Bytes) : Prop :=
  ∃ d p parts, r.find? o.className = some d ∧ c.plan o.className = .ok p ∧
    p.fields.map FieldPlan.name = d.fields.map Field.name ∧
    List.Forall₂ (c.FieldBytes o) p.fields parts ∧ bs = parts.flatten

section OwnBytes

variable {p : Plan} {f : FieldPlan} {name : String} {part : Bytes}

theorem partBytes_of_fitsElement {l : Layout} {v : Value} (hfits : c.FitsElement l v)
    (h : c.ElementOnWire (fun _ q part => c.encode q = .ok part) l v part) :
    c.ElementOnWire c.PartBytes l v part := by
  cases v with
  | scalar s => exact h
  | list vs => cases h
  | object q =>
      obtain ⟨target, htarget, hconforms⟩ := fitsElement_object.1 hfits
      obtain ⟨-, -, hencode⟩ := h
      exact ⟨target, htarget, hconforms.1, hencode⟩

theorem fieldBytes_of_encodeField (hs : c.Sound) (ho : c.Conforms name o) (hp : c.plan name = .ok p)
    (hf : f ∈ p.fields) (h : c.encodeField o f = .ok part) : c.FieldBytes o f part := by
  obtain ⟨v, hv, hfits⟩ := exists_own? ho hp (hs hp) hf
  cases hl : f.layout.isList with
  | true =>
      obtain ⟨vs, parts, hvs, -, hparts, rfl⟩ := (encodeField_of_isList hl).1 h
      obtain ⟨ws, rfl, -, hws⟩ := hfits.exists_list hl
      rw [hv] at hvs
      cases hvs
      refine .elements hl hv (forall₂_imp_getElem? hparts ?_)
      intro i w item hi _ hitem
      exact partBytes_of_fitsElement (hws w (List.mem_of_getElem? hi)) hitem
  | false =>
      by_cases hlayout : ∃ t list, f.layout = .lengthOf t list
      · obtain ⟨t, list, hlayout⟩ := hlayout
        obtain ⟨vs, s, hvs, hlength, rfl⟩ := (encodeField_lengthOf hlayout).1 h
        exact .length hlayout hvs (Scalar.type_of_ofInt? hlength) (Scalar.toInt?_ofInt? hlength)
      · have hne : ∀ t list, f.layout ≠ .lengthOf t list := fun t list heq => hlayout ⟨t, list, heq⟩
        obtain ⟨w, hw, hbytes⟩ := elementOnWire_of_encodeField hl hne h
        rw [hv] at hw
        cases hw
        exact .single hne hl hv (partBytes_of_fitsElement (hfits.element hl) hbytes)

theorem ownBytes_of_fields {r : Registry} (hs : c.Sound) (hc : c.plans = Plan.all r)
    (ho : c.Conforms name o) {parts : List Bytes} (hp : c.plan o.className = .ok p)
    (h : List.Forall₂ (fun step part => c.encodeStep o step = .ok part)
      (p.fields.map .field) parts) : c.OwnBytes r o parts.flatten := by
  obtain ⟨d, hd, hb⟩ := (plan_eq_ok hc).1 hp
  refine ⟨d, p, parts, hd, hp, (Plan.built_of_build hb).map_name, ?_, rfl⟩
  apply forall₂_imp_getElem? (List.forall₂_map_left_iff.1 h)
  intro i f part hi _ hpart
  exact fieldBytes_of_encodeField hs ho (ho.1 ▸ hp) (List.mem_of_getElem? hi) hpart

end OwnBytes

/-- Inherited parts are encoded first, so the encoding follows the chain of an object's parts. -/
theorem exists_ownBytes (hs : c.Sound) (hc : c.plans = Plan.all r) {name : String}
    (ho : c.Conforms name o) (he : c.encode o = .ok bs) :
    ∃ parts, List.Forall₂ (c.OwnBytes r) o.chain parts ∧ bs = parts.flatten := by
  induction o using Object.chain.induct generalizing name bs with
  | case1 className fields =>
      obtain ⟨p, parts, hp, hparts, rfl⟩ := c.encode_eq_ok.1 he
      obtain ⟨p', hp', hparent, -⟩ := ho.2.here
      rw [hp] at hp'
      cases hp'
      have hsteps : p.wireSteps = p.fields.map .field := by
        rw [Plan.wireSteps, ← hparent]
        rfl
      rw [hsteps] at hparts
      rw [Object.chain_of_none rfl]
      exact ⟨[parts.flatten], .cons (ownBytes_of_fields hs hc ho hp hparts) .nil, by simp⟩
  | case2 className q fields ih =>
      obtain ⟨p, parts, hp, hparts, rfl⟩ := c.encode_eq_ok.1 he
      obtain ⟨p', hp', hparent, -⟩ := ho.2.here
      rw [hp] at hp'
      cases hp'
      have hsteps : p.wireSteps = .parent q.className :: p.fields.map .field := by
        rw [Plan.wireSteps, ← hparent]
        rfl
      rw [hsteps] at hparts
      cases hparts with
      | @cons _ first _ parts hfirst hparts =>
          obtain ⟨above, habove, rfl⟩ := ih ⟨rfl, ho.2.parent rfl⟩ hfirst
          rw [Object.chain_of_some rfl]
          refine ⟨above ++ [parts.flatten], ?_, by simp⟩
          exact List.rel_append habove (.cons (ownBytes_of_fields hs hc ho hp hparts) .nil)

section Sample

variable {n : BitVec 8} {items : List Value} {e : Endian}

theorem conforms_sampleBase (h : ∀ v ∈ items, ∃ q, v = .object q ∧
      (ofRegistry Registry.sample e).Conforms "A" q) :
    (ofRegistry Registry.sample e).Conforms "A" (.sampleBase n items) := by
  refine conforms_mk.2 ⟨rfl, Plan.sampleBase, by rw [ofRegistry_sample]; rfl, trivial, ?_⟩
  refine .cons ⟨rfl, fits_scalar.2 ⟨rfl, rfl⟩⟩ (.cons ⟨rfl, fits_list.2 ⟨rfl, ?_, ?_⟩⟩ .nil)
  · rintro _ ⟨⟩
  · intro v hv
    obtain ⟨q, rfl, hq⟩ := h v hv
    exact fitsElement_object.2 ⟨"A", rfl, hq⟩

theorem conforms_sampleCrowded (k : Nat) :
    (ofRegistry Registry.sample e).Conforms "A" (.sampleCrowded k) := by
  apply conforms_sampleBase
  intro v hv
  exact ⟨_, List.eq_of_mem_replicate hv, conforms_sampleBase (by simp)⟩

theorem not_lengthsFit_sampleBase (h : 127 < items.length) :
    ¬(ofRegistry Registry.sample e).LengthsFit (.sampleBase n items) := by
  intro hfit
  have hplan : (ofRegistry Registry.sample e).plan "A" = .ok Plan.sampleBase := by
    rw [ofRegistry_sample]
    rfl
  have hrange := hfit Plan.sampleBase hplan _ List.mem_cons_self .byte "u" rfl items.length rfl
  have hbyte : Primitive.range? .byte = some (-128, 127) := by decide
  simp only [Primitive.inRange, hbyte, Bool.and_eq_true, decide_eq_true_eq] at hrange
  omega

theorem every_sampleBase {P : CodecError → Prop}
    (h : ¬Primitive.inRange .byte items.length → P (.lengthOverflow "A" "n" items.length .byte))
    (hitems : ∀ v ∈ items, ∀ q, v = .object q → q.Every fun q => ∀ p,
      (ofRegistry Registry.sample e).plan q.className = .ok p → ∀ f ∈ p.fields,
        ∀ error, overflow? (q, f) = some error → P error) :
    (Object.sampleBase n items).Every fun q => ∀ p,
      (ofRegistry Registry.sample e).plan q.className = .ok p → ∀ f ∈ p.fields,
        ∀ error, overflow? (q, f) = some error → P error := by
  refine .intro ?_ ?_
  · intro p hp f hf error herror
    rw [ofRegistry_sample] at hp
    obtain rfl : Plan.sampleBase = p := Except.ok.inj hp
    obtain ⟨t, list, k, hlayout, hk, hrange, rfl⟩ := overflow?_eq_some.1 herror
    rcases List.mem_pair.1 hf with rfl | rfl
    · cases hlayout
      cases hk
      exact h hrange
    · cases hlayout
  · intro q hq
    rcases Object.mem_parts.1 hq with hparent | ⟨entry, hentry, hq⟩
    · cases hparent
    · rcases List.mem_pair.1 hentry with rfl | rfl
      · cases hq
      · obtain ⟨v, hv, hvq⟩ := List.mem_filterMap.1 hq
        cases v with
        | object q' =>
            cases hvq
            exact hitems _ hv q rfl
        | scalar s => cases hvq
        | list vs => cases hvq

end Sample

/-- An object of a class can be encoded exactly if each field that is written as the length of a
list, in the object and in all objects inside it, has room for the length. Otherwise encoding fails
at the first field on the wire that has not. The encoding is that of the fields of the outermost
ancestor of the class, then those of each class below it, and of the class itself at the end. -/
theorem encode_of_conforms {source : String} {loaded : Loaded}
    (h : Schema.check source = .ok loaded) {e : Endian}
    (hc : c = Codec.ofRegistry loaded.schema.registry e) {name : String} (ho : c.Conforms name o) :
    ((∃ bs, c.encode o = .ok bs) ↔ o.Every c.LengthsFit) ∧
    (¬o.Every c.LengthsFit → ∃ before q f after t list n,
      c.wireFields o = before ++ (q, f) :: after ∧ (∀ x ∈ before, overflow? x = none) ∧
      f.layout = .lengthOf t list ∧ q.listLength? list = some n ∧ ¬t.inRange n ∧
      c.encode o = .error (.lengthOverflow q.className f.name n t)) ∧
    ∀ bs, c.encode o = .ok bs → ∃ d parts, loaded.schema.registry.find? name = some d ∧
      o.chain.map Object.className = ((loaded.schema.registry.lineage d).map ClassDef.name).reverse ∧
      List.Forall₂ (c.OwnBytes loaded.schema.registry) o.chain parts ∧ bs = parts.flatten := by
  have hs : c.Sound := hc ▸ sound_of_check h e
  have hplans : c.plans = Plan.all loaded.schema.registry := by rw [hc]; rfl
  have hfit : (∃ bs, c.encode o = .ok bs) ↔ o.Every c.LengthsFit := by
    rw [← error?_eq_none, error?_encode hs ho, List.findSome?_eq_none_iff, forall_wireFields hs ho,
      funext fun q => propext (lengthsFit_iff (c := c) (o := q))]
  refine ⟨hfit, ?_, ?_⟩
  · intro hnot
    obtain ⟨error, herror⟩ : ∃ error, error? (c.encode o) = some error := by
      rw [← Option.ne_none_iff_exists', Ne, error?_eq_none, hfit]
      exact hnot
    have hfirst := error?_encode hs ho
    rw [herror] at hfirst
    obtain ⟨before, x, after, hfields, hx, hbefore⟩ := List.findSome?_eq_some_iff.1 hfirst.symm
    obtain ⟨t, list, n, hl, hn, hrange, rfl⟩ := overflow?_eq_some.1 hx
    exact ⟨before, x.1, x.2, after, t, list, n, hfields, hbefore, hl, hn, hrange,
      error?_eq_some.1 herror⟩
  · intro bs he
    obtain ⟨p, hp⟩ := ho.exists_plan
    obtain ⟨d, hd, rfl, -⟩ := built_of_plan hplans hp
    obtain ⟨parts, hparts, rfl⟩ := exists_ownBytes hs hplans ho he
    exact ⟨d, parts, Registry.find?_eq_some.2 ⟨hd, rfl⟩,
      className_chain_of_conforms hplans hd ((Schema.valid_of_check h).2 d hd) ho, hparts, rfl⟩

/-- One object can be encoded; in the other, an element of a list has a list of 300 elements that
a byte counts. -/
theorem encode_of_conforms_sample :
    (Object.sampleDerived 5 7).Every (ofRegistry Registry.sample .big).LengthsFit ∧
    (ofRegistry Registry.sample .big).encode (.sampleBase 0 [.object (.sampleCrowded 300)]) =
      .error (.lengthOverflow "A" "n" 300 .byte) := by
  obtain ⟨loaded, hloaded, hr⟩ := Schema.check_sample
  have hs : (ofRegistry Registry.sample .big).Sound := hr ▸ sound_of_check hloaded .big
  have houter : (ofRegistry Registry.sample .big).Conforms "A"
      (.sampleBase 0 [.object (.sampleCrowded 300)]) :=
    conforms_sampleBase (List.forall_mem_singleton.2 ⟨_, rfl, conforms_sampleCrowded 300⟩)
  refine ⟨(encode_of_conforms hloaded (by rw [hr]) conforms_sampleDerived).1.1
    ⟨_, encode_sampleDerived⟩, ?_⟩
  have hnot : ¬(Object.sampleBase 0 [.object (.sampleCrowded 300)]).Every
      (ofRegistry Registry.sample .big).LengthsFit := by
    intro hfit
    refine not_lengthsFit_sampleBase ?_ (hfit.parts List.mem_cons_self).here
    rw [List.length_replicate]
    decide
  obtain ⟨before, q, f, after, t, list, k, hfields, -, hlayout, hk, hrange, he⟩ :=
    (encode_of_conforms hloaded (by rw [hr]) houter).2.1 hnot
  -- no other length is out of range
  have hone : ∀ x ∈ (ofRegistry Registry.sample .big).wireFields
      (.sampleBase 0 [.object (.sampleCrowded 300)]),
      ∀ error, overflow? x = some error → error = .lengthOverflow "A" "n" 300 .byte := by
    refine (forall_wireFields hs houter).2 (every_sampleBase (fun h => absurd rfl h) ?_)
    rintro _ hinner q rfl
    cases List.mem_singleton.1 hinner
    refine every_sampleBase (fun _ => by rw [List.length_replicate]) ?_
    rintro _ hleaf q rfl
    cases List.eq_of_mem_replicate hleaf
    exact every_sampleBase (fun h => absurd rfl h) (by simp)
  rw [he]
  exact congrArg Except.error (hone (q, f) (by rw [hfields]; simp) _
    (overflow?_eq_some.2 ⟨t, list, k, hlayout, hk, hrange, rfl⟩))

end Codec

end WireSchema
