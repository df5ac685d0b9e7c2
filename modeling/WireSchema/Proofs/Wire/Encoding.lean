import WireSchema.Proofs.Plan.Agreement
import WireSchema.Proofs.Wire.Bytes
import WireSchema.Wire.Encode

namespace WireSchema.Codec

open Outcome

section Plans

variable {c : Codec} {r : Registry}

theorem lookup_named {α : Type} (g : ClassDef → α) (name : String) (ds : List ClassDef) :
    (ds.map fun d => (d.name, g d)).lookup name = (ds.find? (·.name == name)).map g := by
  induction ds with
  | nil => rfl
  | cons d ds ih =>
      rw [List.map_cons, List.lookup_cons, List.find?_cons, BEq.comm (a := name)]
      cases d.name == name
      · exact ih
      · rfl

theorem plan_eq_ok (hc : c.plans = Plan.all r) {name : String} {p : Plan} :
    c.plan name = .ok p ↔ ∃ d, r.find? name = some d ∧ Plan.build r d = .ok p := by
  rw [plan, hc, Plan.all, lookup_named, ← Registry.find?]
  cases r.find? name with
  | none => simp
  | some d => cases hb : Plan.build r d <;> simp [hb]

theorem built_of_plan (hc : c.plans = Plan.all r) {name : String} {p : Plan}
    (hp : c.plan name = .ok p) : ∃ d ∈ r.classes, d.name = name ∧ Built r d p := by
  obtain ⟨d, hd, hb⟩ := (plan_eq_ok hc).1 hp
  obtain ⟨hmem, hname⟩ := Registry.find?_eq_some.1 hd
  exact ⟨d, hmem, hname, Plan.built_of_build hb⟩

theorem built_of_mem (hc : c.plans = Plan.all r) {d : ClassDef} (hd : d ∈ r.classes) {p : Plan}
    (hp : c.plan d.name = .ok p) : Built r d p := by
  obtain ⟨d', hd', hname, hb⟩ := built_of_plan hc hp
  obtain rfl : d' = d := List.inj_on_of_nodup_map r.nodup hd' hd hname
  exact hb

end Plans

variable (c : Codec)

def encodeItem (className field expected : String) : Value → Except CodecError Bytes
  | .object item => c.encode item
  | _ => .error (.mismatch className field expected)

def encodeItems (o : Object) (f : FieldPlan) (expected : String) : Except CodecError Bytes := do
  let vs ← o.needList f.name
  checkLength o.className f.name f.layout vs.length
  return (← vs.mapM (c.encodeItem o.className f.name expected)).flatten

def encodePart (o : Object) (f : FieldPlan) (className : String) : Except CodecError Bytes := do
  match ← o.needOwn f.name with
  | .object part =>
    if part.className = className then c.encode part
    else .error (.mismatch o.className f.name className)
  | _ => .error (.mismatch o.className f.name "object")

def encodeField (o : Object) (f : FieldPlan) : Except CodecError Bytes :=
  match f.layout with
  | .scalar t => do c.encodeScalar o.className f.name t (← o.needOwn f.name)
  | .lengthOf t list => do c.encodeLength o.className f.name t (← o.needList list).length
  | .fixedScalars t _ | .scalarList t _ => c.encodeScalars o f t
  | .nested className => c.encodePart o f className
  | .fixedNested className _ | .nestedList className _ => c.encodeItems o f className

def encodeStep (o : Object) : WireStep → Except CodecError Bytes
  | .parent _ => do c.encode (← o.needParent)
  | .field f => c.encodeField o f

theorem attach_mapM_encodeItem (vs : List Value) (className field expected : String) :
    (vs.attach.mapM fun ⟨v, _⟩ => match v with
      | .object item => c.encode item
      | _ => .error (.mismatch className field expected)) =
      vs.mapM (c.encodeItem className field expected) := by
  rw [← attach_mapM (c.encodeItem className field expected)]
  congr 1
  funext ⟨v, _⟩
  cases v <;> rfl

theorem encode_eq (o : Object) : c.encode o = (do
    let p ← c.plan o.className
    let parts ← p.wireSteps.mapM (c.encodeStep o)
    return parts.flatten) := by
  rw [encode]
  congr 1
  funext p
  congr 1
  congr 1
  funext step
  cases step with
  | parent name =>
      simp only [encodeStep, Object.needParent]
      split <;> simp_all
  | field f =>
      obtain ⟨name, comment, layout, default, text⟩ := f
      cases layout with
      | scalar t => rfl
      | lengthOf t list => rfl
      | fixedScalars t length => rfl
      | scalarList t count => rfl
      | nested className =>
          simp only [encodeStep, encodeField, encodePart, Object.needOwn]
          split <;> simp_all
      | fixedNested className _ | nestedList className _ =>
          simp only [encodeStep, encodeField, encodeItems, Object.needList, Object.needOwn]
          split
          next vs h =>
            simp only [h, ok_bind]
            congr 1
            funext _
            congr 1
            exact c.attach_mapM_encodeItem vs o.className name className
          next h => simp [h]
          next h => simp [h]

theorem encode_eq_ok {o : Object} {bs : Bytes} :
    c.encode o = .ok bs ↔ ∃ p parts, c.plan o.className = .ok p ∧
      List.Forall₂ (fun step part => c.encodeStep o step = .ok part) p.wireSteps parts ∧
      bs = parts.flatten := by
  rw [encode_eq, bind_eq_ok]
  constructor
  · rintro ⟨p, hp, h⟩
    obtain ⟨parts, hparts, h⟩ := bind_eq_ok.1 h
    cases h
    exact ⟨p, parts, hp, mapM_eq_ok.1 hparts, rfl⟩
  · rintro ⟨p, parts, hp, hparts, rfl⟩
    exact ⟨p, hp, bind_eq_ok.2 ⟨parts, mapM_eq_ok.2 hparts, rfl⟩⟩

end WireSchema.Codec

namespace WireSchema.Object

open Outcome

variable {o : Object}

theorem needParent_eq_ok {q : Object} : o.needParent = .ok q ↔ o.parent = some q := by
  rw [needParent]
  split <;> simp_all

theorem needOwn_eq_ok {field : String} {v : Value} :
    o.needOwn field = .ok v ↔ o.own? field = some v := by
  rw [needOwn]
  split <;> simp_all

theorem needList_eq_ok {field : String} {vs : List Value} :
    o.needList field = .ok vs ↔ o.own? field = some (.list vs) := by
  rw [needList, bind_eq_ok]
  constructor
  · rintro ⟨v, hv, h⟩
    cases v <;> simp_all [needOwn_eq_ok]
  · intro h
    exact ⟨_, needOwn_eq_ok.2 h, rfl⟩

end WireSchema.Object

namespace WireSchema.Layout

def fixedLength? : Layout → Option Nat
  | fixedScalars _ n | fixedNested _ n => some n
  | _ => none

end WireSchema.Layout

namespace WireSchema.Codec

open Outcome

variable {c : Codec} {o : Object} {f : FieldPlan} {bs : Bytes} {className field : String}

theorem encodeScalar_eq_ok {t : Primitive} {v : Value} :
    c.encodeScalar className field t v = .ok bs ↔
      ∃ s, v = .scalar s ∧ s.type = t ∧ bs = s.toBytes c.endian := by
  cases v with
  | scalar s =>
      by_cases h : s.type = t
      · simp [encodeScalar, h, eq_comm (a := bs)]
      · simp [encodeScalar, h]
  | list vs => simp [encodeScalar]
  | object q => simp [encodeScalar]

theorem length_scalars {e : Endian} {t : Primitive} {vs : List Value} {parts : List Bytes}
    (h : List.Forall₂ (fun v part => ∃ s, v = .scalar s ∧ s.type = t ∧ part = s.toBytes e) vs parts) :
    parts.flatten.length = vs.length * t.width := by
  induction h with
  | nil => simp
  | cons h _ ih =>
      obtain ⟨s, rfl, rfl, rfl⟩ := h
      simp only [List.flatten_cons, List.length_append, ih, List.length_cons, Scalar.length_toBytes,
        Nat.add_mul]
      omega

theorem encodeLength_eq_ok {t : Primitive} {n : Nat} :
    c.encodeLength className field t n = .ok bs ↔
      ∃ s, Scalar.ofInt? t n = some s ∧ bs = s.toBytes c.endian := by
  rw [encodeLength]
  cases h : Scalar.ofInt? t n with
  | none => simp
  | some s => simp [eq_comm (a := bs)]

theorem checkLength_eq_ok {l : Layout} {n : Nat} :
    checkLength className field l n = .ok () ↔ ∀ m, l.fixedLength? = some m → n = m := by
  cases l <;> simp [checkLength, Layout.fixedLength?]

theorem encodeItem_eq_ok {expected : String} {v : Value} :
    c.encodeItem className field expected v = .ok bs ↔
      ∃ q, v = .object q ∧ c.encode q = .ok bs := by
  cases v <;> simp [encodeItem]

theorem encodePart_eq_ok {name : String} :
    c.encodePart o f name = .ok bs ↔
      ∃ q, o.own? f.name = some (.object q) ∧ q.className = name ∧ c.encode q = .ok bs := by
  rw [encodePart, bind_eq_ok]
  constructor
  · rintro ⟨v, hv, h⟩
    rw [Object.needOwn_eq_ok] at hv
    cases v with
    | object q =>
        by_cases hq : q.className = name
        · exact ⟨q, hv, hq, by simpa [hq] using h⟩
        · simp [hq] at h
    | scalar s => simp at h
    | list vs => simp at h
  · rintro ⟨q, hv, rfl, h⟩
    exact ⟨_, Object.needOwn_eq_ok.2 hv, by simpa using h⟩

theorem encodeList_eq_ok {encodeValue : Value → Except CodecError Bytes} :
    (do
      let vs ← o.needList f.name
      checkLength o.className f.name f.layout vs.length
      return (← vs.mapM encodeValue).flatten) = Except.ok bs ↔
      ∃ vs parts, o.own? f.name = some (.list vs) ∧
        (∀ n, f.layout.fixedLength? = some n → vs.length = n) ∧
        List.Forall₂ (fun v part => encodeValue v = .ok part) vs parts ∧ bs = parts.flatten := by
  rw [bind_eq_ok]
  constructor
  · rintro ⟨vs, hvs, h⟩
    obtain ⟨_, hlength, h⟩ := bind_eq_ok.1 h
    obtain ⟨parts, hparts, h⟩ := bind_eq_ok.1 h
    cases h
    exact ⟨vs, parts, Object.needList_eq_ok.1 hvs, checkLength_eq_ok.1 hlength,
      mapM_eq_ok.1 hparts, rfl⟩
  · rintro ⟨vs, parts, hvs, hlength, hparts, rfl⟩
    refine ⟨vs, Object.needList_eq_ok.2 hvs, bind_eq_ok.2 ⟨(), checkLength_eq_ok.2 hlength, ?_⟩⟩
    exact bind_eq_ok.2 ⟨parts, mapM_eq_ok.2 hparts, rfl⟩

end WireSchema.Codec

namespace WireSchema.Object

def sampleBase (n : BitVec 8) (items : List Value) : Object :=
  .mk "A" none [("n", .scalar ⟨.byte, n⟩), ("u", .list items)]

def sampleDerived (n m : BitVec 8) : Object :=
  .mk "B" (some (sampleBase n [.object (sampleBase m [])])) [("v", .list [.scalar ⟨.short, 3⟩])]

end WireSchema.Object

namespace WireSchema.Codec

theorem ofRegistry_sample (e : Endian) : ofRegistry Registry.sample e =
    ⟨[("A", .ok Plan.sampleBase), ("B", .ok Plan.sampleDerived)], e⟩ := by
  rw [ofRegistry, Plan.all_sample]

theorem encode_sampleDerived :
    (ofRegistry Registry.sample .big).encode (.sampleDerived 5 7) = .ok [1, 0, 0, 3] := by
  rw [ofRegistry_sample]
  decide +kernel

theorem instantiate_sampleDerived : (ofRegistry Registry.sample .big).instantiate "B" =
    .ok (.mk "B" (some (.sampleBase 0 [])) [("v", .list [])]) := by
  rw [ofRegistry_sample]
  decide +kernel

end WireSchema.Codec
