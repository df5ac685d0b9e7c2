import WireSchema.Proofs.Wire.Delimited
import WireSchema.Proofs.Wire.Format

namespace WireSchema

open Outcome

namespace Codec

/-- `read` gives a value and takes a chunk for it exactly if `P` relates the two. -/
def Parses (read : Bytes → Except CodecError (Value × Bytes)) (P : Value → Bytes → Prop) : Prop :=
  ∀ bs v rest, read bs = .ok (v, rest) ↔ ∃ chunk, bs = chunk ++ rest ∧ P v chunk

variable {c : Codec}

theorem parses_readScalarValue (t : Primitive) : Parses (c.readScalarValue t)
    fun v chunk => ∃ s, v = .scalar s ∧ s.type = t ∧ chunk = s.toBytes c.endian := by
  intro bs v rest
  constructor
  · intro h
    by_cases hlength : (bs.take t.width).length < t.width
    · simp only [readScalarValue, readScalar, hlength, if_true] at h
      cases h
    · simp only [readScalarValue, readScalar, hlength, if_false] at h
      cases h
      have hword : (bs.take t.width).length = t.width := by
        simp only [List.length_take] at hlength ⊢
        omega
      refine ⟨_, (List.take_append_drop t.width bs).symm, _, rfl, rfl, ?_⟩
      exact (Scalar.toBytes_ofBytes c.endian hword).symm
  · rintro ⟨chunk, rfl, s, rfl, rfl, rfl⟩
    have hlength : (s.toBytes c.endian).length = s.type.width := by simp
    simp only [readScalarValue, readScalar, List.take_left' hlength, List.drop_left' hlength, hlength,
      Nat.lt_irrefl, if_false, Scalar.ofBytes_toBytes]
    rfl

theorem readMany_eq_ok {read : Bytes → Except CodecError (Value × Bytes)}
    {P : Value → Bytes → Prop} (h : Parses read P) {done : List Value} {n : Nat} {bs : Bytes}
    {v : Value} {rest : Bytes} : readMany read done n bs = .ok (v, rest) ↔
      ∃ vs parts, v = .list (done.reverse ++ vs) ∧ vs.length = n ∧ List.Forall₂ P vs parts ∧
        bs = parts.flatten ++ rest := by
  induction n generalizing done bs with
  | zero =>
      constructor
      · intro h
        cases h
        exact ⟨[], [], by simp, rfl, .nil, rfl⟩
      · rintro ⟨vs, parts, rfl, hn, hparts, rfl⟩
        obtain rfl := List.length_eq_zero_iff.1 hn
        cases hparts
        simp [readMany]
  | succ n ih =>
      constructor
      · intro hread
        rw [readMany] at hread
        split at hread
        next => cases hread
        next w rest' hw =>
          obtain ⟨chunk, rfl, hP⟩ := (h _ _ _).1 hw
          obtain ⟨vs, parts, rfl, rfl, hparts, rfl⟩ := ih.1 hread
          exact ⟨w :: vs, chunk :: parts, by simp, rfl, .cons hP hparts, by simp⟩
      · rintro ⟨vs, parts, rfl, hn, hparts, rfl⟩
        cases hparts with
        | nil => cases hn
        | @cons w chunk vs parts hP hparts =>
            have hw := (h (chunk ++ (parts.flatten ++ rest)) w _).2 ⟨chunk, rfl, hP⟩
            have hrest : readMany read (w :: done) n (parts.flatten ++ rest) =
                .ok (.list (done.reverse ++ w :: vs), rest) :=
              ih.2 ⟨vs, parts, by simp, by simpa using hn, hparts, rfl⟩
            simp only [readMany, List.flatten_cons, List.append_assoc, hw]
            exact hrest

theorem parses_readMany {read : Bytes → Except CodecError (Value × Bytes)}
    {P : Value → Bytes → Prop} (h : Parses read P) (n : Nat) : Parses (readMany read [] n)
      fun v chunk => ∃ vs parts, v = .list vs ∧ vs.length = n ∧ List.Forall₂ P vs parts ∧
        chunk = parts.flatten := by
  intro bs v rest
  rw [readMany_eq_ok h]
  constructor
  · rintro ⟨vs, parts, rfl, hn, hparts, rfl⟩
    exact ⟨_, rfl, vs, parts, rfl, hn, hparts, rfl⟩
  · rintro ⟨_, rfl, vs, parts, rfl, hn, hparts, rfl⟩
    exact ⟨vs, parts, rfl, hn, hparts, rfl⟩

theorem elementCount_eq_ok {o : Object} {list : String} {s : CountSource} {n : Nat} :
    elementCount o list s = .ok n ↔ o.countAt? s = some n := by
  unfold elementCount Object.countAt?
  cases (o.atDepth? s.depth).bind (·.own? s.field) with
  | none => simp
  | some v => cases hv : v.toCount? <;> simp [hv]

def Decodes (c : Codec) (decode : Object → Bytes → Decoded) (R : String → Object → Bytes → Prop) :
    Prop :=
  ∀ {name new}, c.Conforms name new → ∀ bs o rest, decode new bs = ⟨o, .ok rest⟩ ↔
    ∃ chunk, bs = chunk ++ rest ∧ R name o chunk

section Field

variable {r : Registry} {decode : Object → Bytes → Decoded} {R : String → Object → Bytes → Prop}

theorem parses_readObject (hc : c.plans = Plan.all r) (hdecode : c.Decodes decode R)
    (hR : ∀ name q bs, R name q bs → c.Conforms name q) (name : String) :
    Parses (c.readObject decode name) fun v chunk => ∃ q, v = .object q ∧ R name q chunk := by
  intro bs v rest
  simp only [readObject]
  constructor
  · intro h
    obtain ⟨new, hnew, h⟩ := bind_eq_ok.1 h
    obtain ⟨rest', hrest, h⟩ := bind_eq_ok.1 h
    cases h
    have hd : decode new bs = ⟨(decode new bs).object, .ok rest⟩ := by rw [← hrest]
    obtain ⟨chunk, hbs, hq⟩ := (hdecode (conforms_of_instantiate hc hnew) _ _ _).1 hd
    exact ⟨chunk, hbs, _, rfl, hq⟩
  · rintro ⟨chunk, rfl, q, rfl, hq⟩
    obtain ⟨new, hnew⟩ := exists_instantiate hc (hR name q chunk hq)
    have hd := (hdecode (conforms_of_instantiate hc hnew) (chunk ++ rest) q rest).2 ⟨chunk, rfl, hq⟩
    simp [hnew, hd]

variable {className : String} {parent : Option Object} {pre post : List (String × Value)}
  {n : String} {v : Value}

theorem put_eq_ok (hn : n ∉ pre.map Prod.fst) {read : Except CodecError (Value × Bytes)}
    {o : Object} {rest : Bytes} :
    put (.mk className parent (pre ++ (n, v) :: post)) n read = ⟨o, .ok rest⟩ ↔
      ∃ w, read = .ok (w, rest) ∧ o = .mk className parent (pre ++ (n, w) :: post) := by
  unfold put
  cases read with
  | error e => simp
  | ok x =>
      obtain ⟨w, rest'⟩ := x
      simp only [Object.setOwn?_append_cons hn]
      simp [eq_comm (a := o), and_comm]

theorem valueOnWire_list_iff {o : Object} {l : Layout} {P : Value → Bytes → Prop} {n : Nat}
    (hl : l.isList) (hn : o.lengthFor? l = some n)
    (hP : ∀ v chunk, P v chunk ↔ c.ElementOnWire R l v chunk) {v : Value} {chunk : Bytes} :
    (∃ vs parts, v = .list vs ∧ vs.length = n ∧ List.Forall₂ P vs parts ∧ chunk = parts.flatten) ↔
      c.ValueOnWire R o l v chunk := by
  obtain rfl : P = c.ElementOnWire R l := by
    funext v chunk
    exact propext (hP v chunk)
  rw [valueOnWire_of_isList hl, hn]
  simp only [Option.some.injEq, eq_comm (a := n)]

theorem readScalarList_eq_ok {o : Object} {t : Primitive} {s : CountSource} {bs rest : Bytes} :
    c.readScalarList o n t s bs = .ok (v, rest) ↔
      ∃ chunk, bs = chunk ++ rest ∧ c.ValueOnWire R o (.scalarList t s) v chunk := by
  have hP (v : Value) (chunk : Bytes) : (∃ s, v = .scalar s ∧ s.type = t ∧
      chunk = s.toBytes c.endian) ↔ c.ElementOnWire R (.scalarList t s) v chunk :=
    (elementOnWire_of_scalarType? rfl rfl).symm
  rw [readScalarList]
  rw [bind_eq_ok]
  constructor
  · rintro ⟨m, hm, h⟩
    have hm : o.lengthFor? (.scalarList t s) = some m := elementCount_eq_ok.1 hm
    obtain ⟨chunk, rfl, hv⟩ := (parses_readMany (parses_readScalarValue t) m bs v rest).1
      (c.readScalars_eq_ok.1 h)
    exact ⟨chunk, rfl, (valueOnWire_list_iff rfl hm hP).1 hv⟩
  · rintro ⟨chunk, rfl, hv⟩
    obtain ⟨vs, parts, rfl, hm, -, rfl⟩ := (valueOnWire_of_isList rfl).1 hv
    refine ⟨vs.length, elementCount_eq_ok.2 hm, c.readScalars_eq_ok.2 ?_⟩
    exact (parses_readMany (parses_readScalarValue t) vs.length _ _ rest).2
      ⟨_, rfl, (valueOnWire_list_iff rfl hm hP).2 hv⟩

theorem readObjectList_eq_ok (hc : c.plans = Plan.all r) (hdecode : c.Decodes decode R)
    (hR : ∀ name q bs, R name q bs → c.Conforms name q) {o : Object} {target : String}
    {s : CountSource} {bs rest : Bytes} :
    c.readObjectList decode o n target s bs = .ok (v, rest) ↔
      ∃ chunk, bs = chunk ++ rest ∧ c.ValueOnWire R o (.nestedList target s) v chunk := by
  have hP (v : Value) (chunk : Bytes) : (∃ q, v = .object q ∧ R target q chunk) ↔
      c.ElementOnWire R (.nestedList target s) v chunk :=
    (elementOnWire_of_className? rfl rfl).symm
  rw [readObjectList]
  rw [bind_eq_ok]
  constructor
  · rintro ⟨m, hm, h⟩
    have hm : o.lengthFor? (.nestedList target s) = some m := elementCount_eq_ok.1 hm
    obtain ⟨chunk, rfl, hv⟩ :=
      (parses_readMany (parses_readObject hc hdecode hR target) m bs v rest).1 h
    exact ⟨chunk, rfl, (valueOnWire_list_iff rfl hm hP).1 hv⟩
  · rintro ⟨chunk, rfl, hv⟩
    obtain ⟨vs, parts, rfl, hm, -, -⟩ := (valueOnWire_of_isList rfl).1 hv
    exact ⟨vs.length, elementCount_eq_ok.2 hm,
      (parses_readMany (parses_readObject hc hdecode hR target) vs.length _ _ rest).2
        ⟨chunk, rfl, (valueOnWire_list_iff rfl hm hP).2 hv⟩⟩

theorem Decodes.within (hdecode : c.Decodes decode R) {target : String} {q : Object}
    (hq : c.Conforms target q) (whole : Object → Object) {bs rest : Bytes} {o : Object} :
    (⟨whole (decode q bs).object, (decode q bs).rest⟩ : Decoded) = ⟨o, .ok rest⟩ ↔
      ∃ q' chunk, o = whole q' ∧ bs = chunk ++ rest ∧ R target q' chunk := by
  constructor
  · intro h
    obtain ⟨rfl, hrest⟩ := Decoded.mk.inj h
    have hd : decode q bs = ⟨(decode q bs).object, .ok rest⟩ := by rw [← hrest]
    obtain ⟨chunk, hbs, hwire⟩ := (hdecode hq bs _ rest).1 hd
    exact ⟨_, chunk, rfl, hbs, hwire⟩
  · rintro ⟨q', chunk, rfl, rfl, hwire⟩
    rw [(hdecode hq (chunk ++ rest) q' rest).2 ⟨chunk, rfl, hwire⟩]

theorem decodePart_eq_ok (hdecode : c.Decodes decode R) (hn : n ∉ pre.map Prod.fst)
    {target : String} {q : Object} (hq : c.Conforms target q) {bs rest : Bytes} {o : Object} :
    (⟨((Object.mk className parent (pre ++ (n, .object q) :: post)).setOwn? n
        (.object (decode q bs).object)).getD (.mk className parent (pre ++ (n, .object q) :: post)),
        (decode q bs).rest⟩ : Decoded) = ⟨o, .ok rest⟩ ↔
      ∃ q' chunk, o = .mk className parent (pre ++ (n, .object q') :: post) ∧
        bs = chunk ++ rest ∧ R target q' chunk := by
  rw [Object.setOwn?_append_cons hn, Option.getD_some]
  exact hdecode.within hq fun q' => .mk className parent (pre ++ (n, .object q') :: post)

theorem decodeParent_eq_ok (hdecode : c.Decodes decode R) {name target : String} {q : Object}
    (hq : c.Conforms target q) {fields : List (String × Value)} {bs rest : Bytes} {o : Object} :
    c.decodeStep decode (.mk className (some q) fields) (.parent name) bs = ⟨o, .ok rest⟩ ↔
      ∃ q' chunk, o = .mk className (some q') fields ∧ bs = chunk ++ rest ∧ R target q' chunk :=
  hdecode.within hq fun q' => .mk className (some q') fields

theorem decodeField_eq_ok (hc : c.plans = Plan.all r) (hdecode : c.Decodes decode R)
    (hR : ∀ name q bs, R name q bs → c.Conforms name q) {f : FieldPlan}
    (hn : f.name ∉ pre.map Prod.fst) (hv : c.Fits f.layout v) {bs rest : Bytes} {o : Object} :
    c.decodeField decode (.mk className parent (pre ++ (f.name, v) :: post)) f bs = ⟨o, .ok rest⟩ ↔
      ∃ w chunk, o = .mk className parent (pre ++ (f.name, w) :: post) ∧ bs = chunk ++ rest ∧
        c.ValueOnWire R (.mk className parent (pre ++ (f.name, v) :: post)) f.layout w chunk := by
  have hput {read : Except CodecError (Value × Bytes)}
      {W : Value → Bytes → Prop} (hread : ∀ w, read = .ok (w, rest) ↔
        ∃ chunk, bs = chunk ++ rest ∧ W w chunk) :
      put (.mk className parent (pre ++ (f.name, v) :: post)) f.name read = ⟨o, .ok rest⟩ ↔
        ∃ w chunk, o = .mk className parent (pre ++ (f.name, w) :: post) ∧ bs = chunk ++ rest ∧
          W w chunk := by
    rw [put_eq_ok hn]
    constructor
    · rintro ⟨w, hw, rfl⟩
      obtain ⟨chunk, hbs, hwire⟩ := (hread w).1 hw
      exact ⟨w, chunk, rfl, hbs, hwire⟩
    · rintro ⟨w, chunk, rfl, hbs, hwire⟩
      exact ⟨w, (hread w).2 ⟨chunk, hbs, hwire⟩, rfl⟩
  rw [decodeField]
  cases hl : f.layout with
  | scalar t | lengthOf t _ =>
      refine hput fun w => (parses_readScalarValue t bs w rest).trans ?_
      exact exists_congr fun chunk => and_congr_right fun _ =>
        (valueOnWire_of_scalarType? rfl rfl rfl).symm
  | nested target =>
      rw [hl] at hv
      obtain ⟨q, _, rfl, ⟨⟩, hq⟩ := (hv.element rfl).exists_object rfl
      have hown : (Object.mk className parent (pre ++ (f.name, .object q) :: post)).own? f.name =
          some (.object q) := Object.lookup_append_cons hn
      simp only [hown]
      apply (decodePart_eq_ok hdecode hn hq).trans
      constructor
      · rintro ⟨q', chunk, rfl, hbs, hwire⟩
        exact ⟨_, chunk, rfl, hbs, (valueOnWire_of_className? rfl rfl rfl).2 ⟨q', rfl, hwire⟩⟩
      · rintro ⟨w, chunk, rfl, hbs, hwire⟩
        obtain ⟨q', rfl, hq'⟩ := (valueOnWire_of_className? rfl rfl rfl).1 hwire
        exact ⟨q', chunk, rfl, hbs, hq'⟩
  | fixedScalars t length =>
      refine hput fun w => (parses_readMany (parses_readScalarValue t) length bs w rest).trans ?_
      exact exists_congr fun chunk => and_congr_right fun _ =>
        valueOnWire_list_iff rfl rfl fun _ _ => (elementOnWire_of_scalarType? rfl rfl).symm
  | fixedNested target length =>
      refine hput fun w =>
        (parses_readMany (parses_readObject hc hdecode hR target) length bs w rest).trans ?_
      exact exists_congr fun chunk => and_congr_right fun _ =>
        valueOnWire_list_iff rfl rfl fun _ _ => (elementOnWire_of_className? rfl rfl).symm
  | scalarList t s => exact hput fun w => readScalarList_eq_ok
  | nestedList target s => exact hput fun w => readObjectList_eq_ok hc hdecode hR

theorem decodeSteps_cons {o : Object} {step : WireStep} {steps : List WireStep} {bs rest : Bytes}
    {o' : Object} : c.decodeSteps decode o (step :: steps) bs = ⟨o', .ok rest⟩ ↔
      ∃ o₁ rest₁, c.decodeStep decode o step bs = ⟨o₁, .ok rest₁⟩ ∧
        c.decodeSteps decode o₁ steps rest₁ = ⟨o', .ok rest⟩ := by
  simp only [decodeSteps]
  generalize c.decodeStep decode o step bs = d
  obtain ⟨o₁, rest₁⟩ := d
  cases rest₁ with
  | error e => simp
  | ok rest₁ => simp

theorem decodeSteps_append {o o' : Object} {before after : List WireStep} {bs rest : Bytes} :
    c.decodeSteps decode o (before ++ after) bs = ⟨o', .ok rest⟩ ↔ ∃ o₁ rest₁,
      c.decodeSteps decode o before bs = ⟨o₁, .ok rest₁⟩ ∧
      c.decodeSteps decode o₁ after rest₁ = ⟨o', .ok rest⟩ := by
  induction before generalizing o bs with
  | nil =>
      constructor
      · intro h
        exact ⟨o, bs, rfl, h⟩
      · rintro ⟨o₁, rest₁, h₁, h⟩
        cases h₁
        exact h
  | cons step before ih =>
      simp only [List.cons_append, decodeSteps_cons, ih]
      constructor
      · rintro ⟨o₁, rest₁, hstep, o₂, rest₂, hbefore, hafter⟩
        exact ⟨o₂, rest₂, ⟨o₁, rest₁, hstep, hbefore⟩, hafter⟩
      · rintro ⟨o₂, rest₂, ⟨o₁, rest₁, hstep, hbefore⟩, hafter⟩
        exact ⟨o₁, rest₁, hstep, o₂, rest₂, hbefore, hafter⟩

theorem valueOnWire_congr {es es' : List (String × Value)} {l : Layout} {w : Value} {chunk : Bytes}
    (hcount : ∀ s, l.count? = some s → s.depth = 0 → s.field ∈ pre.map Prod.fst) :
    c.ValueOnWire R (.mk className parent (pre ++ es)) l w chunk ↔
      c.ValueOnWire R (.mk className parent (pre ++ es')) l w chunk := by
  have hlength : (Object.mk className parent (pre ++ es)).lengthFor? l =
      (Object.mk className parent (pre ++ es')).lengthFor? l := by
    unfold Object.lengthFor?
    cases hs : l.count? with
    | none => rfl
    | some s =>
        simp only [Option.bind_some, Object.countAt?]
        cases hd : s.depth with
        | succ depth => rfl
        | zero =>
            have hmem := hcount s hs hd
            simp only [Object.atDepth?, Option.bind_some, Object.own?, Object.fields,
              List.lookup_append]
            cases hlookup : pre.lookup s.field with
            | some w => rfl
            | none =>
                obtain ⟨e, he, heq⟩ := List.mem_map.1 hmem
                have := List.lookup_eq_none_iff.1 hlookup e he
                simp [heq] at this
  cases w <;> simp [ValueOnWire, hlength]

variable (pre) in
theorem decodeFields_eq_ok (hc : c.plans = Plan.all r) (hdecode : c.Decodes decode R)
    (hR : ∀ name q bs, R name q bs → c.Conforms name q) {fs : List FieldPlan}
    {todo : List (String × Value)} {bs rest : Bytes} {o : Object}
    (hnodup : (pre.map Prod.fst ++ fs.map FieldPlan.name).Nodup)
    (hfits : List.Forall₂ (fun f e => e.1 = f.name ∧ c.Fits f.layout e.2) fs todo)
    (hcount : ∀ before f after s, fs = before ++ f :: after → f.layout.count? = some s →
      s.depth = 0 → s.field ∈ pre.map Prod.fst ++ before.map FieldPlan.name) :
    c.decodeSteps decode (.mk className parent (pre ++ todo)) (fs.map .field) bs = ⟨o, .ok rest⟩ ↔
      ∃ new parts, o = .mk className parent (pre ++ new) ∧
        new.map Prod.fst = fs.map FieldPlan.name ∧ bs = parts.flatten ++ rest ∧
        List.Forall₂ (c.StepOnWire R o) (fs.map .field) parts := by
  induction hfits generalizing pre bs with
  | nil =>
      simp only [List.map_nil, decodeSteps]
      constructor
      · intro h
        cases h
        exact ⟨[], [], rfl, rfl, rfl, .nil⟩
      · rintro ⟨new, parts, rfl, hnew, rfl, hparts⟩
        cases hparts
        rw [List.map_eq_nil_iff.1 hnew]
        rfl
  | @cons f e fs todo hfe hfits ih =>
      obtain ⟨n, v⟩ := e
      obtain ⟨rfl, hv⟩ := hfe
      have hn : f.name ∉ pre.map Prod.fst := by
        intro hmem
        exact (List.nodup_append.1 hnodup).2.2 _ hmem _ (by simp) rfl
      have hhead : ∀ s, f.layout.count? = some s → s.depth = 0 → s.field ∈ pre.map Prod.fst := by
        intro s hs hd
        simpa using hcount [] f fs s rfl hs hd
      -- the fields after the first, once it has the value `w`
      have hrest (w : Value) {bs : Bytes} := @ih (pre ++ [(f.name, w)]) bs
        (by simpa using hnodup)
        (by
          intro before g after s heq hs hd
          simpa using hcount (f :: before) g after s (by rw [heq]; rfl) hs hd)
      simp only [List.append_assoc, List.singleton_append] at hrest
      rw [List.map_cons, decodeSteps_cons]
      constructor
      · rintro ⟨o₁, rest₁, hstep, h⟩
        obtain ⟨w, chunk, rfl, rfl, hwire⟩ := (decodeField_eq_ok hc hdecode hR hn hv).1 hstep
        obtain ⟨new, parts, rfl, hnew, rfl, hparts⟩ := (hrest w).1 h
        refine ⟨(f.name, w) :: new, chunk :: parts, rfl, by simp [hnew], by simp, .cons ?_ hparts⟩
        exact ⟨w, Object.lookup_append_cons hn, (valueOnWire_congr hhead).1 hwire⟩
      · rintro ⟨new, parts, rfl, hnew, rfl, hparts⟩
        obtain ⟨chunk, parts, ⟨w, hw, hwire⟩, hparts', rfl⟩ := List.forall₂_cons_left_iff.1 hparts
        obtain ⟨⟨n, w'⟩, new, rfl, rfl, hnew'⟩ := List.map_eq_cons_iff.1 hnew
        obtain rfl : w' = w := Option.some.inj ((Object.lookup_append_cons hn).symm.trans hw)
        refine ⟨_, parts.flatten ++ rest, (decodeField_eq_ok hc hdecode hR hn hv).2 ?_,
          (hrest w').2 ⟨new, parts, rfl, hnew', rfl, hparts'⟩⟩
        exact ⟨w', chunk, rfl, by simp, (valueOnWire_congr hhead).1 hwire⟩

theorem decodeOwn_eq_ok (hc : c.plans = Plan.all r) (hs : c.Sound) (hdecode : c.Decodes decode R)
    (hR : ∀ name q bs, R name q bs → c.Conforms name q) {p : Plan} (hp : c.plan className = .ok p)
    {fields : List (String × Value)}
    (hfields : List.Forall₂ (fun f e => e.1 = f.name ∧ c.Fits f.layout e.2) p.fields fields)
    (parent : Option Object) {bs rest : Bytes} {o : Object} :
    c.decodeSteps decode (.mk className parent fields) (p.fields.map .field) bs = ⟨o, .ok rest⟩ ↔
      ∃ parts, o.className = className ∧ o.parent = parent ∧
        o.fields.map Prod.fst = p.fields.map FieldPlan.name ∧ bs = parts.flatten ++ rest ∧
        List.Forall₂ (c.StepOnWire R o) (p.fields.map .field) parts := by
  have hcount : ∀ before f after s, p.fields = before ++ f :: after → f.layout.count? = some s →
      s.depth = 0 → s.field ∈ before.map FieldPlan.name := by
    intro before f after s heq hcount hd
    obtain ⟨g, hg, hname, -⟩ := (hs hp).counted heq hcount hd
    exact List.mem_map.2 ⟨g, hg, hname⟩
  apply (decodeFields_eq_ok [] hc hdecode hR (by simpa using (hs hp).names) hfields hcount).trans
  constructor
  · rintro ⟨new, parts, rfl, hnames, rfl, hparts⟩
    exact ⟨parts, rfl, rfl, hnames, rfl, hparts⟩
  · rintro ⟨parts, rfl, rfl, hnames, rfl, hparts⟩
    obtain ⟨className, parent, new⟩ := o
    exact ⟨new, parts, rfl, hnames, rfl, hparts⟩

end Field

theorem onWire_succ {depth : Nat} {name : String} {p : Plan} (hp : c.plan name = .ok p) {o : Object}
    {bs : Bytes} : c.OnWire (depth + 1) name o bs ↔ ∃ parts, o.className = name ∧
      o.parent.isSome = p.parent.isSome ∧ o.fields.map Prod.fst = p.fields.map FieldPlan.name ∧
      List.Forall₂ (c.StepOnWire (c.OnWire depth) o) p.wireSteps parts ∧ bs = parts.flatten := by
  simp [OnWire, hp]

theorem decodes_decodeWithin {r : Registry} (hc : c.plans = Plan.all r) (hs : c.Sound)
    (depth : Nat) : c.Decodes (c.decodeWithin depth) (c.OnWire depth) := by
  induction depth with
  | zero =>
      intro name new hnew bs o rest
      simp [decodeWithin, OnWire]
  | succ depth ih =>
      intro name new hnew bs o rest
      obtain ⟨className, parent, fields⟩ := new
      obtain ⟨rfl, p, hp, hparent, hfields⟩ := conforms_mk.1 hnew
      have hR : ∀ name q bs, c.OnWire depth name q bs → c.Conforms name q :=
        fun _ _ _ => conforms_of_onWire hs
      have hsteps : c.decodeWithin (depth + 1) (.mk className parent fields) bs =
          c.decodeSteps (c.decodeWithin depth) (.mk className parent fields) p.wireSteps bs := by
        simp only [decodeWithin, Object.className, hp]
      rw [hsteps]
      simp only [onWire_succ hp, Plan.wireSteps]
      cases hname : p.parent with
      | none =>
          rw [hname] at hparent
          cases parent with
          | some q => cases hparent
          | none =>
              apply (decodeOwn_eq_ok hc hs ih hR hp hfields none).trans
              constructor
              · rintro ⟨parts, hclass, hpart, hnames, rfl, hparts⟩
                exact ⟨_, rfl, parts, hclass, by simp [hpart], hnames, hparts, rfl⟩
              · rintro ⟨_, rfl, parts, hclass, hpart, hnames, hparts, rfl⟩
                exact ⟨parts, hclass, by simpa using hpart, hnames, rfl, hparts⟩
      | some target =>
          rw [hname] at hparent
          cases parent with
          | none => cases hparent
          | some q =>
              apply decodeSteps_cons.trans
              constructor
              · rintro ⟨o₁, rest₁, hstep, h⟩
                obtain ⟨q', chunk, rfl, rfl, hwire⟩ := (decodeParent_eq_ok ih hparent).1 hstep
                obtain ⟨parts, hclass, hpart, hnames, rfl, hparts⟩ :=
                  (decodeOwn_eq_ok hc hs ih hR hp hfields (some q')).1 h
                exact ⟨(chunk :: parts).flatten, by simp, chunk :: parts, hclass, by simp [hpart],
                  hnames, .cons ⟨q', hpart, hwire⟩ hparts, rfl⟩
              · rintro ⟨_, rfl, parts, hclass, -, hnames, hparts, rfl⟩
                obtain ⟨chunk, parts, ⟨q', hpart, hwire⟩, hparts', rfl⟩ :=
                  List.forall₂_cons_left_iff.1 hparts
                exact ⟨_, parts.flatten ++ rest,
                  (decodeParent_eq_ok ih hparent).2 ⟨q', chunk, rfl, by simp, hwire⟩,
                  (decodeOwn_eq_ok hc hs ih hR hp hfields (some q')).2
                    ⟨parts, hclass, hpart, hnames, rfl, hparts'⟩⟩

end Codec

end WireSchema
