import Mathlib.Logic.Relation
import WireSchema.Proofs.Object.Parts
import WireSchema.Proofs.Object.Scalar
import WireSchema.Proofs.Plan.Agreement
import WireSchema.Proofs.Wire.Encoding
import WireSchema.Wire.Size

open WireSchema.Outcome

namespace WireSchema.Codec

section Equation

variable (c : Codec)

def sizeItem (className field expected : String) : Value → Except CodecError Nat
  | .object item => c.size item
  | _ => .error (.mismatch className field expected)

def sizeTerm (o : Object) : SizeTerm → Except CodecError Nat
  | .parent _ => do c.size (← o.needParent)
  | .bytes _ count => .ok count
  | .nested field _ => do
    match ← o.needOwn field with
    | .object part => c.size part
    | _ => .error (.mismatch o.className field "object")
  | .perElement field width => do return (← o.needList field).length * width
  | .elementSum field expected => do
    let vs ← o.needList field
    return total (← vs.mapM (c.sizeItem o.className field expected))

theorem attach_mapM_sizeItem (vs : List Value) (className field expected : String) :
    (vs.attach.mapM fun ⟨v, _⟩ => match v with
      | .object item => c.size item
      | _ => .error (.mismatch className field expected)) =
      vs.mapM (c.sizeItem className field expected) := by
  rw [← attach_mapM (c.sizeItem className field expected)]
  congr 1
  funext ⟨v, _⟩
  cases v <;> rfl

theorem size_eq (o : Object) : c.size o = (do
    let p ← c.plan o.className
    let terms ← p.sizeTerms.mapError .plan
    return total (← terms.mapM (c.sizeTerm o))) := by
  rw [size]
  congr 1
  funext p
  congr 1
  funext terms
  congr 1
  congr 1
  funext term
  cases term with
  | parent name =>
      simp only [sizeTerm, Object.needParent]
      split <;> simp_all
  | bytes field count => rfl
  | nested field className =>
      simp only [sizeTerm, Object.needOwn]
      split <;> simp_all
  | perElement field width => rfl
  | elementSum field className =>
      simp only [sizeTerm, Object.needList, Object.needOwn]
      split
      next vs h =>
        simp only [h, ok_bind]
        congr 1
        exact c.attach_mapM_sizeItem vs o.className field className
      next h => simp [h]
      next h => simp [h]

end Equation

end WireSchema.Codec

namespace WireSchema

def WireStep.parts (o : Object) : WireStep → List Object
  | .parent _ => o.parent.toList
  | .field f =>
    match f.layout, o.own? f.name with
    | .nested _, some (.object q) => [q]
    | .fixedNested .., some (.list vs) | .nestedList .., some (.list vs) =>
      vs.filterMap Value.object?
    | _, _ => []

namespace WireStep

variable {o q : Object} {f : FieldPlan}

theorem mem_parts_field : q ∈ (WireStep.field f).parts o ↔ ∃ target,
    f.layout.className? = some target ∧
      (f.layout.isList = false ∧ o.own? f.name = some (.object q) ∨
        f.layout.isList ∧ ∃ vs, o.own? f.name = some (.list vs) ∧ .object q ∈ vs) := by
  have hitems (vs : List Value) : q ∈ vs.filterMap Value.object? ↔ .object q ∈ vs := by
    rw [List.mem_filterMap]
    constructor
    · rintro ⟨v, hv, hq⟩
      cases v <;> cases hq
      exact hv
    · intro hq
      exact ⟨_, hq, rfl⟩
  rw [parts]
  cases f.layout with
  | nested target =>
      cases o.own? f.name with
      | none => simp [Layout.className?]
      | some v => cases v <;> simp [Layout.className?, Layout.isList, Layout.isFixedList,
          Layout.isVariableList, eq_comm]
  | fixedNested target | nestedList target =>
      cases o.own? f.name with
      | none => simp [Layout.className?]
      | some v => cases v <;> simp [Layout.className?, Layout.isList, Layout.isFixedList,
          Layout.isVariableList, hitems]
  | _ => simp [Layout.className?]

theorem exists_own?_of_mem_parts (h : q ∈ (WireStep.field f).parts o) :
    ∃ v, o.own? f.name = some v ∧ q ∈ v.parts := by
  obtain ⟨target, -, ⟨-, hq⟩ | ⟨-, vs, hvs, hq⟩⟩ := mem_parts_field.1 h
  · exact ⟨_, hq, List.mem_singleton_self q⟩
  · exact ⟨_, hvs, List.mem_filterMap.2 ⟨_, hq, rfl⟩⟩

theorem mem_parts_of_mem_parts {step : WireStep} (h : q ∈ step.parts o) : q ∈ o.parts := by
  rw [Object.mem_parts]
  cases step with
  | parent target => exact .inl (Option.mem_toList.1 h)
  | field f =>
      obtain ⟨v, hv, hq⟩ := exists_own?_of_mem_parts h
      obtain ⟨pre, post, hfields, -⟩ := Object.exists_of_lookup hv
      exact .inr ⟨(f.name, v), by simp [hfields], hq⟩

theorem height_lt_of_mem_parts {step : WireStep} (h : q ∈ step.parts o) : q.height < o.height := by
  cases step with
  | parent name => exact Object.parent_height_lt (Option.mem_toList.1 h)
  | field f =>
      obtain ⟨v, hv, hq⟩ := exists_own?_of_mem_parts h
      exact Object.height_lt_of_own? hv hq

end WireStep

namespace Codec

variable (c : Codec)

def Part (o q : Object) : Prop :=
  ∃ p, c.plan o.className = .ok p ∧ ∃ step ∈ p.wireSteps, q ∈ step.parts o

/-- The encoding of `o` comes to `q`: the object itself, or a part of one that it comes to. -/
def Visits : Object → Object → Prop :=
  Relation.ReflTransGen c.Part

def Slotted (o : Object) : Prop :=
  ∃ q p, c.Visits o q ∧ c.plan q.className = .ok p ∧ p.HasSlots

variable {c}

theorem slotted_iff {o : Object} {p : Plan} (hp : c.plan o.className = .ok p) :
    c.Slotted o ↔ p.HasSlots ∨ ∃ step ∈ p.wireSteps, ∃ q ∈ step.parts o, c.Slotted q := by
  constructor
  · rintro ⟨q, r, hv, hr, hs⟩
    rcases hv.cases_head with rfl | ⟨x, ⟨p', hp', step, hstep, hx⟩, hv⟩
    · rw [hp] at hr
      cases hr
      exact .inl hs
    · rw [hp] at hp'
      cases hp'
      exact .inr ⟨step, hstep, x, hx, q, r, hv, hr, hs⟩
  · rintro (hs | ⟨step, hstep, x, hx, q, r, hv, hr, hs⟩)
    · exact ⟨o, p, .refl, hp, hs⟩
    · exact ⟨q, r, .head ⟨p, hp, step, hstep, hx⟩ hv, hr, hs⟩

def Unmeasured (x : Except CodecError Nat) : Prop :=
  ∃ className field problem, x = .error (.plan (.unsupportedLayout className field problem))

def Agrees (x : Except CodecError Nat) (n : Nat) (slotted : Prop) : Prop :=
  (x = .ok n ∧ ¬slotted) ∨ (Unmeasured x ∧ slotted)

theorem Agrees.ok {n : Nat} {slotted : Prop} (h : ¬slotted) : Agrees (.ok n) n slotted :=
  .inl ⟨rfl, h⟩

theorem Agrees.map {x : Except CodecError Nat} {n : Nat} {s t : Prop} (h : Agrees x n s)
    (hst : s ↔ t) : Agrees x n t := by
  rwa [← propext hst]

/-- Sizes add up as encodings are put together, and the first failure is that of the sum. -/
theorem Agrees.sum {α β : Type} {f : β → Except CodecError Nat} {slotted : α → Prop}
    {R : α → β → Prop} {E : α → Bytes → Prop} {as : List α} {bs : List β} {parts : List Bytes}
    (hR : List.Forall₂ R as bs) (hE : List.Forall₂ E as parts)
    (h : ∀ a b part, a ∈ as → R a b → E a part → Agrees (f b) part.length (slotted a)) :
    Agrees (do return total (← bs.mapM f)) parts.flatten.length (∃ a ∈ as, slotted a) := by
  induction hR generalizing parts with
  | nil =>
      cases hE
      exact .ok (by simp)
  | @cons a b as bs hab hR ih =>
      obtain ⟨part, parts, ha, hparts, rfl⟩ := List.forall₂_cons_left_iff.1 hE
      simp only [List.mapM_cons, List.flatten_cons, List.length_append]
      rcases h a b part (by simp) hab ha with ⟨hf, hs⟩ | ⟨⟨className, field, problem, hf⟩, hs⟩
      · obtain ⟨hrest, hs'⟩ | ⟨⟨className, field, problem, hrest⟩, a', ha', hs'⟩ :=
          ih hparts (fun a' b' part' ha' => h a' b' part' (by simp [ha']))
        · obtain ⟨ns, hns, hsum⟩ := bind_eq_ok.1 hrest
          left
          refine ⟨?_, by simpa [hs] using hs'⟩
          simp only [pure_eq_ok, Except.ok.injEq] at hsum
          simp only [hf, hns, ok_bind, pure_eq_ok, ← hsum]
          rfl
        · rcases bind_eq_error.1 hrest with hns | ⟨ns, -, h⟩
          · exact .inr ⟨⟨className, field, problem, by simp [hf, hns]⟩, a', by simp [ha'], hs'⟩
          · simp at h
      · exact .inr ⟨⟨className, field, problem, by simp [hf]⟩, a, by simp, hs⟩

def PartsAgree (c : Codec) (o : Object) : Prop :=
  ∀ q : Object, q.height < o.height → ∀ bs, c.encode q = .ok bs →
    Agrees (c.size q) bs.length (c.Slotted q)

theorem agrees_items {o : Object} (ih : c.PartsAgree o) {field className expected expected' : String}
    {vs : List Value} {parts : List Bytes} (hvs : o.own? field = some (.list vs))
    (h : List.Forall₂ (fun v part => c.encodeItem className field expected v = .ok part) vs parts) :
    Agrees (do return total (← vs.mapM (c.sizeItem className field expected')))
      parts.flatten.length (∃ q ∈ vs.filterMap Value.object?, c.Slotted q) := by
  have hsum : Agrees (do return total (← vs.mapM (c.sizeItem className field expected')))
      parts.flatten.length (∃ v ∈ vs, ∃ q, v.object? = some q ∧ c.Slotted q) := by
    apply Agrees.sum (R := Eq) (List.forall₂_same.2 fun _ _ => rfl) h
    rintro v _ part hv rfl hpart
    obtain ⟨q, rfl, hq⟩ := encodeItem_eq_ok.1 hpart
    have hlt : q.height < o.height := by simpa [Value.height] using Object.item_height_lt hvs hv
    exact (ih q hlt part hq).map (by simp [Value.object?])
  apply hsum.map
  simp only [List.mem_filterMap]
  tauto

theorem agrees_field {o : Object} (ih : c.PartsAgree o) {className : String} {f : FieldPlan}
    {term : SizeTerm} {part : Bytes} (hterm : f.sizeTerm className = .ok term)
    (h : c.encodeField o f = .ok part) :
    Agrees (c.sizeTerm o term) part.length (∃ q ∈ (WireStep.field f).parts o, c.Slotted q) := by
  obtain ⟨name, comment, layout, default, text⟩ := f
  cases layout with
  | scalar t =>
      cases hterm
      obtain ⟨v, -, h⟩ := bind_eq_ok.1 h
      obtain ⟨s, -, rfl, rfl⟩ := encodeScalar_eq_ok.1 h
      rw [Scalar.length_toBytes]
      exact .ok (by simp [WireStep.parts])
  | lengthOf t list =>
      cases hterm
      obtain ⟨vs, -, h⟩ := bind_eq_ok.1 h
      obtain ⟨s, hs, rfl⟩ := encodeLength_eq_ok.1 h
      rw [Scalar.length_toBytes, Scalar.type_of_ofInt? hs]
      exact .ok (by simp [WireStep.parts])
  | nested className =>
      cases hterm
      obtain ⟨q, hq, -, h⟩ := encodePart_eq_ok.1 h
      have hlt : q.height < o.height := by simpa [Value.height] using Object.own_height_lt hq
      rw [sizeTerm, Object.needOwn_eq_ok.2 hq]
      exact (ih q hlt part h).map (by simp [WireStep.parts, hq])
  | fixedScalars t length =>
      cases hterm
      obtain ⟨vs, parts, hvs, hlength, hparts, rfl⟩ := encodeList_eq_ok.1 h
      rw [length_scalars (hparts.imp fun _ _ => encodeScalar_eq_ok.1), hlength length rfl]
      exact .ok (by simp [WireStep.parts])
  | fixedNested className length => cases hterm
  | scalarList t count =>
      cases hterm
      obtain ⟨vs, parts, hvs, -, hparts, rfl⟩ := encodeList_eq_ok.1 h
      rw [length_scalars (hparts.imp fun _ _ => encodeScalar_eq_ok.1), sizeTerm,
        Object.needList_eq_ok.2 hvs]
      exact .ok (by simp [WireStep.parts])
  | nestedList className count =>
      cases hterm
      obtain ⟨vs, parts, hvs, -, hparts, rfl⟩ := encodeList_eq_ok.1 h
      rw [sizeTerm, Object.needList_eq_ok.2 hvs]
      exact (agrees_items ih hvs hparts).map (by simp [WireStep.parts, hvs])

def SizedBy (className : String) : WireStep → SizeTerm → Prop
  | .parent name, term => term = .parent name
  | .field f, term => f.sizeTerm className = .ok term

theorem sizedBy_of_sizeTerms {p : Plan} {terms : List SizeTerm} (h : p.sizeTerms = .ok terms) :
    List.Forall₂ (SizedBy p.name) p.wireSteps terms := by
  obtain ⟨fields, hfields, h⟩ := bind_eq_ok.1 h
  cases h
  refine List.rel_append (R := SizedBy p.name) ?_ ?_
  · rw [List.forall₂_map_left_iff, List.forall₂_map_right_iff]
    exact List.forall₂_same.2 fun _ _ => rfl
  · rw [List.forall₂_map_left_iff]
    exact mapM_eq_ok.1 hfields

theorem agrees_step {o : Object} (ih : c.PartsAgree o) {className : String} {step : WireStep}
    {term : SizeTerm} {part : Bytes} (hterm : SizedBy className step term)
    (h : c.encodeStep o step = .ok part) :
    Agrees (c.sizeTerm o term) part.length (∃ q ∈ step.parts o, c.Slotted q) := by
  cases step with
  | parent name =>
      cases hterm
      obtain ⟨q, hq, h⟩ := bind_eq_ok.1 h
      rw [sizeTerm, hq]
      rw [Object.needParent_eq_ok] at hq
      exact (ih q (Object.parent_height_lt hq) part h).map (by simp [WireStep.parts, hq])
  | field f => exact agrees_field ih hterm h

theorem agrees_of_encode {o : Object} {bs : Bytes} (h : c.encode o = .ok bs) :
    Agrees (c.size o) bs.length (c.Slotted o) := by
  have ih : c.PartsAgree o := fun q _ _ hq => agrees_of_encode hq
  obtain ⟨p, parts, hp, hparts, rfl⟩ := c.encode_eq_ok.1 h
  rw [size_eq, hp, ok_bind, propext (slotted_iff hp)]
  cases hterms : p.sizeTerms with
  | error e =>
      obtain ⟨hslots, field, problem, rfl⟩ := Plan.sizeTerms_eq_error hterms
      exact .inr ⟨⟨_, field, problem, rfl⟩, .inl hslots⟩
  | ok terms =>
      have hslots := Plan.exists_sizeTerms.1 ⟨terms, hterms⟩
      have hsteps := Agrees.sum (sizedBy_of_sizeTerms hterms) hparts
        (fun step term part _ hterm hpart => agrees_step ih hterm hpart)
      exact hsteps.map (by simp [hslots])
termination_by o.height

theorem not_slotted_of_check {source : String} {loaded : Loaded} {e : Endian} {o : Object}
    (h : Schema.check source = .ok loaded) :
    ¬(Codec.ofRegistry loaded.schema.registry e).Slotted o := by
  rintro ⟨q, p, -, hp, hslots⟩
  obtain ⟨d, hd, hb⟩ := (plan_eq_ok rfl).1 hp
  have hvalid := (Schema.valid_of_check h).2 d (Registry.find?_eq_some.1 hd).1
  exact Plan.not_hasSlots_of_valid hvalid hb hslots

/-- The size of an object that can be encoded is the length of its encoding, except that it cannot
be told exactly where the encoding comes to an object whose class has a fixed list of objects. In a
schema that was checked there are no such classes. -/
theorem size_of_encode {r : Registry} {e : Endian} (hc : c = Codec.ofRegistry r e) {o : Object}
    {bs : Bytes} (h : c.encode o = .ok bs) :
    (c.size o = .ok bs.length ∨ Unmeasured (c.size o)) ∧
    (Unmeasured (c.size o) ↔
      ∃ q p, c.Visits o q ∧ c.plan q.className = .ok p ∧ p.HasSlots) ∧
    ∀ source loaded, Schema.check source = .ok loaded → loaded.schema.registry = r →
      c.size o = .ok bs.length := by
  rcases agrees_of_encode h with ⟨hsize, hslots⟩ | ⟨hsize, hslots⟩
  · refine ⟨.inl hsize, ⟨?_, fun hq => absurd hq hslots⟩, fun _ _ _ _ => hsize⟩
    rintro ⟨className, field, problem, herror⟩
    rw [hsize] at herror
    cases herror
  · refine ⟨.inr hsize, ⟨fun _ => hslots, fun _ => hsize⟩, ?_⟩
    rintro source loaded hcheck rfl
    exact absurd (hc ▸ hslots) (not_slotted_of_check hcheck)

theorem size_of_encode_sample :
    (ofRegistry Registry.sample .big).encode (.sampleDerived 5 7) = .ok [1, 0, 0, 3] ∧
    (ofRegistry Registry.sample .big).size (.sampleDerived 5 7) = .ok 4 := by
  obtain ⟨loaded, hloaded, hr⟩ := Schema.check_sample
  exact ⟨encode_sampleDerived,
    (size_of_encode rfl encode_sampleDerived).2.2 Schema.sample loaded hloaded hr⟩

end Codec

end WireSchema
