import WireSchema.Proofs.Wire.Canonical

namespace WireSchema

open Outcome

namespace Codec

/-- The number that is written for a field: the one that the object holds or, where the field counts
a list, the length of the list. -/
def written? (c : Codec) (o : Object) (name : String) : Option Int :=
  match c.plan o.className with
  | .error _ => none
  | .ok p =>
    match (p.field? name).map FieldPlan.layout with
    | some (.scalar _) => (o.own? name).bind Value.toInt?
    | some (.lengthOf _ list) => (o.listLength? list).map Int.ofNat
    | _ => none

/-- The lists of an object itself that are counted by an inherited field have as many elements as is
written for the field. -/
def Consistent (c : Codec) (o : Object) : Prop :=
  ∀ p, c.plan o.className = .ok p → ∀ f ∈ p.fields, ∀ s, f.layout.count? = some s → 1 ≤ s.depth →
    (o.atDepth? s.depth).bind (c.written? · s.field) = (o.listLength? f.name).map Int.ofNat

def withLength (c : Codec) (className : String) (fields : List (String × Value)) (name : String)
    (v : Value) : Value :=
  match c.plan className with
  | .error _ => v
  | .ok p =>
    match (p.field? name).map FieldPlan.layout with
    | some (.lengthOf t list) =>
      (((fields.lookup list).bind Value.list?).bind fun vs =>
        (Scalar.ofInt? t vs.length).map Value.scalar).getD v
    | _ => v

end Codec

mutual

/-- The object with the length of each list in the field that counts it. -/
def Object.settled (c : Codec) : Object → Object
  | .mk className parent fields =>
    .mk className (Object.settledPart c parent)
      ((Object.settledFields c fields).map fun e => (e.1, c.withLength className fields e.1 e.2))

def Object.settledPart (c : Codec) : Option Object → Option Object
  | none => none
  | some q => some (Object.settled c q)

def Value.settled (c : Codec) : Value → Value
  | .scalar s => .scalar s
  | .list vs => .list (Value.settledAll c vs)
  | .object q => .object (Object.settled c q)

def Value.settledAll (c : Codec) : List Value → List Value
  | [] => []
  | v :: vs => Value.settled c v :: Value.settledAll c vs

def Object.settledFields (c : Codec) : List (String × Value) → List (String × Value)
  | [] => []
  | (name, v) :: fields => (name, Value.settled c v) :: Object.settledFields c fields

end

theorem Value.settledAll_eq (c : Codec) (vs : List Value) :
    Value.settledAll c vs = vs.map (Value.settled c) := by
  induction vs with
  | nil => rfl
  | cons v vs ih => simp [Value.settledAll, ih]

theorem Object.settledFields_eq (c : Codec) (fields : List (String × Value)) :
    Object.settledFields c fields = fields.map fun e => (e.1, e.2.settled c) := by
  induction fields with
  | nil => rfl
  | cons e fields ih => simp [Object.settledFields, ih]

namespace Object

variable {c : Codec} {o q : Object}

theorem className_settled : (o.settled c).className = o.className := by
  cases o
  rfl

theorem parent_settled : (o.settled c).parent = o.parent.map (settled c) := by
  obtain ⟨className, parent, fields⟩ := o
  cases parent <;> rfl

theorem names_settled : (o.settled c).fields.map Prod.fst = o.fields.map Prod.fst := by
  obtain ⟨className, parent, fields⟩ := o
  simp [settled, Object.fields, settledFields_eq]

theorem lookup_map (g : String → Value → Value) {name : String} {es : List (String × Value)} :
    (es.map fun e => (e.1, g e.1 e.2)).lookup name = (es.lookup name).map (g name) := by
  induction es with
  | nil => rfl
  | cons e es ih =>
      obtain ⟨n, v⟩ := e
      rw [List.map_cons, List.lookup_cons, List.lookup_cons]
      cases h : name == n with
      | false => exact ih
      | true => simp [eq_of_beq h]

theorem own?_settled {name : String} : (o.settled c).own? name =
    (o.own? name).map fun v => c.withLength o.className o.fields name (v.settled c) := by
  obtain ⟨className, parent, fields⟩ := o
  simp only [settled, own?, Object.fields, settledFields_eq, List.map_map, Object.className]
  exact lookup_map fun n v => c.withLength className fields n (v.settled c)

theorem atDepth?_settled {depth : Nat} :
    (o.settled c).atDepth? depth = (o.atDepth? depth).map (settled c) := by
  induction depth generalizing o with
  | zero => rfl
  | succ depth ih =>
      simp only [atDepth?, parent_settled]
      cases o.parent with
      | none => rfl
      | some q => exact ih

end Object

theorem Plan.field?_of_mem {p : Plan} (hs : p.Sound) {f : FieldPlan} (hf : f ∈ p.fields) :
    p.field? f.name = some f := by
  cases hfind : p.field? f.name with
  | none => simpa using List.find?_eq_none.1 hfind f hf
  | some g =>
      have hg := List.mem_of_find?_eq_some hfind
      have hname : g.name = f.name := by
        simpa using List.find?_some (p := fun g : FieldPlan => g.name == f.name) hfind
      rw [List.inj_on_of_nodup_map hs.names hg hf hname]

namespace Codec

theorem map_name_of_forall₂ {R : FieldPlan → Value → Prop} {fs : List FieldPlan}
    {es : List (String × Value)} (h : List.Forall₂ (fun f e => e.1 = f.name ∧ R f e.2) fs es) :
    es.map Prod.fst = fs.map FieldPlan.name := by
  induction h with
  | nil => rfl
  | cons hfe _ ih => simp [hfe.1, ih]

variable {c : Codec} {o q : Object} {p : Plan} {f : FieldPlan} {name : String} {bs : Bytes}

theorem own?_settled_of_ne (hp : c.plan o.className = .ok p) (hs : p.Sound) (hf : f ∈ p.fields)
    (hl : ∀ t list, f.layout ≠ .lengthOf t list) :
    (o.settled c).own? f.name = (o.own? f.name).map (Value.settled c) := by
  rw [Object.own?_settled]
  congr 1
  funext v
  simp only [withLength, hp, Plan.field?_of_mem hs hf, Option.map_some]
  split
  next heq => exact absurd (Option.some.inj heq) (hl _ _)
  next => rfl

theorem own?_settled_of_lengthOf (hp : c.plan o.className = .ok p) (hs : p.Sound)
    (hf : f ∈ p.fields) {t : Primitive} {list : String} (hl : f.layout = .lengthOf t list)
    {v : Value} {vs : List Value} {s : Scalar} (hv : o.own? f.name = some v)
    (hvs : o.own? list = some (.list vs)) (hlength : Scalar.ofInt? t vs.length = some s) :
    (o.settled c).own? f.name = some (.scalar s) := by
  have hlookup : o.fields.lookup list = some (.list vs) := hvs
  simp [Object.own?_settled, hv, withLength, hp, Plan.field?_of_mem hs hf, hl, hlookup, Value.list?,
    hlength]

theorem exists_own? (ho : c.Conforms name o) (hp : c.plan name = .ok p) (hs : p.Sound)
    (hf : f ∈ p.fields) : ∃ v, o.own? f.name = some v ∧ c.Fits f.layout v := by
  obtain ⟨className, parent, fields⟩ := o
  obtain ⟨rfl, p', hp', -, hfields⟩ := conforms_mk.1 ho
  rw [hp] at hp'
  cases hp'
  exact lookup_of_forall₂ (R := fun f v => c.Fits f.layout v) hfields (Plan.field?_of_mem hs hf)

theorem encodeField_of_encode (h : c.encode o = .ok bs) (hp : c.plan o.className = .ok p)
    (hf : f ∈ p.fields) : ∃ part, c.encodeField o f = .ok part := by
  obtain ⟨p', parts, hp', hsteps, -⟩ := c.encode_eq_ok.1 h
  rw [hp] at hp'
  cases hp'
  obtain ⟨part, -, hpart⟩ := exists_right_of_mem hsteps (mem_wireSteps_field.2 hf)
  exact ⟨part, hpart⟩

theorem encodeField_lengthOf {t : Primitive} {list : String} (hl : f.layout = .lengthOf t list) :
    c.encodeField o f = .ok bs ↔ ∃ vs s, o.own? list = some (.list vs) ∧
      Scalar.ofInt? t vs.length = some s ∧ bs = s.toBytes c.endian := by
  simp only [encodeField, hl, bind_eq_ok, Object.needList_eq_ok, encodeLength_eq_ok]
  simp only [exists_and_left]

theorem toInt?_settled (hs : c.Sound) (ho : c.Conforms name o) (he : c.encode o = .ok bs)
    {field : String} {n : Int} (hn : c.written? o field = some n) :
    ((o.settled c).own? field).bind Value.toInt? = some n := by
  obtain ⟨p, hp⟩ := ho.exists_plan
  have hp' := ho.1 ▸ hp
  simp only [written?, hp'] at hn
  cases hfind : p.field? field with
  | none => simp [hfind] at hn
  | some f =>
      have hf : f ∈ p.fields := List.mem_of_find?_eq_some hfind
      obtain rfl : f.name = field := by
        simpa using List.find?_some (p := fun g : FieldPlan => g.name == field) hfind
      simp only [hfind, Option.map_some] at hn
      cases hl : f.layout with
      | scalar t =>
          simp only [hl] at hn
          obtain ⟨v, hv, hn⟩ := Option.bind_eq_some_iff.1 hn
          rw [own?_settled_of_ne hp' (hs hp) hf (by simp [hl]), hv]
          cases v with
          | scalar s => exact hn
          | list vs => cases hn
          | object q => cases hn
      | lengthOf t list =>
          simp only [hl] at hn
          obtain ⟨m, hm, rfl⟩ := Option.map_eq_some_iff.1 hn
          obtain ⟨part, hpart⟩ := encodeField_of_encode he hp' hf
          obtain ⟨vs, s, hvs, hlength, -⟩ := (encodeField_lengthOf hl).1 hpart
          obtain ⟨v, hv, -⟩ := exists_own? ho hp (hs hp) hf
          rw [Object.listLength?_of_own? hvs] at hm
          cases hm
          rw [own?_settled_of_lengthOf hp' (hs hp) hf hl hv hvs hlength]
          exact Scalar.toInt?_ofInt? hlength
      | _ => simp [hl] at hn

theorem exists_parent (ho : c.Conforms name o) (hp : c.plan name = .ok p) (hq : o.parent = some q) :
    ∃ target, p.parent = some target ∧ c.Conforms target q := by
  obtain ⟨className, parent, fields⟩ := o
  cases hq
  obtain ⟨rfl, p', hp', hparent, -⟩ := conforms_mk.1 ho
  rw [hp] at hp'
  cases hp'
  cases htarget : p.parent with
  | none => rw [htarget] at hparent; cases hparent
  | some target => rw [htarget] at hparent; exact ⟨target, rfl, hparent⟩

/-- The inherited parts of an object that can be encoded. -/
theorem encode_atDepth {depth : Nat} (ho : c.Conforms name o) (he : c.encode o = .ok bs)
    (hq : o.atDepth? depth = some q) :
    (∃ target, c.Conforms target q) ∧ ∃ part, c.encode q = .ok part := by
  induction depth generalizing name o bs with
  | zero =>
      cases hq
      exact ⟨⟨name, ho⟩, bs, he⟩
  | succ depth ih =>
      obtain ⟨q', hparent, hq⟩ := Option.bind_eq_some_iff.1 hq
      obtain ⟨p, parts, hp, hsteps, -⟩ := c.encode_eq_ok.1 he
      obtain ⟨target, htarget, hconforms⟩ := exists_parent ho (ho.1 ▸ hp) hparent
      obtain ⟨part, -, hpart⟩ := exists_right_of_mem hsteps (mem_wireSteps_parent.2 htarget)
      obtain ⟨q'', hq'', hencode⟩ := bind_eq_ok.1 hpart
      rw [Object.needParent_eq_ok, hparent] at hq''
      cases hq''
      exact ih hconforms hencode hq

theorem countAt?_settled (hs : c.Sound) (ho : c.Conforms name o) (he : c.encode o = .ok bs)
    {s : CountSource} {n : Nat}
    (hn : (o.atDepth? s.depth).bind (c.written? · s.field) = some (n : Int)) :
    (o.settled c).countAt? s = some n := by
  obtain ⟨q, hq, hn⟩ := Option.bind_eq_some_iff.1 hn
  obtain ⟨⟨target, hconforms⟩, part, hpart⟩ := encode_atDepth ho he hq
  obtain ⟨v, hv, hn⟩ := Option.bind_eq_some_iff.1 (toInt?_settled hs hconforms hpart hn)
  simp [Object.countAt?, Object.atDepth?_settled, hq, hv, Value.toCount?, hn]

theorem lengthFor?_settled (hs : c.Sound) (ho : c.Conforms name o) (hconsistent : c.Consistent o)
    (he : c.encode o = .ok bs) (hp : c.plan o.className = .ok p) (hf : f ∈ p.fields)
    {vs : List Value} (hvs : o.own? f.name = some (.list vs)) (hl : f.layout.isList)
    (hlength : ∀ n, f.layout.fixedLength? = some n → vs.length = n) :
    (o.settled c).lengthFor? f.layout = some vs.length := by
  cases hfixed : f.layout.fixedLength? with
  | some n => simp [Object.lengthFor?, hfixed, hlength n hfixed]
  | none =>
      obtain ⟨s, hcount⟩ : ∃ s, f.layout.count? = some s := by
        cases hlayout : f.layout <;> simp_all [Layout.isList, Layout.isFixedList,
          Layout.isVariableList, Layout.fixedLength?, Layout.count?]
      rw [lengthFor?_of_count? hcount]
      refine countAt?_settled hs ho he ?_
      cases hd : s.depth with
      | succ depth =>
          rw [← hd, hconsistent p hp f hf s hcount (by omega), Object.listLength?_of_own? hvs]
          rfl
      | zero =>
          obtain ⟨pre, post, hfields⟩ := List.append_of_mem hf
          obtain ⟨g, hg, hname, t, hlayout⟩ := (hs hp).counted hfields hcount hd
          have hfind := Plan.field?_of_mem (hs hp) (f := g) (by simp [hfields, hg])
          rw [hname] at hfind
          simp [Object.atDepth?, written?, hp, hfind, hlayout, Object.listLength?_of_own? hvs]

theorem elementOnWire_of_encodeField {part : Bytes} (hl : f.layout.isList = false)
    (hne : ∀ t list, f.layout ≠ .lengthOf t list) (h : c.encodeField o f = .ok part) :
    ∃ v, o.own? f.name = some v ∧
      c.ElementOnWire (fun _ q part => c.encode q = .ok part) f.layout v part := by
  obtain ⟨fieldName, comment, layout, default, text⟩ := f
  cases layout with
  | scalar t =>
      obtain ⟨v, hv, h⟩ := bind_eq_ok.1 h
      obtain ⟨s, rfl, rfl, rfl⟩ := encodeScalar_eq_ok.1 h
      exact ⟨_, Object.needOwn_eq_ok.1 hv, rfl, rfl⟩
  | nested target =>
      obtain ⟨q, hq, -, h⟩ := encodePart_eq_ok.1 h
      exact ⟨_, hq, target, rfl, h⟩
  | lengthOf t list => exact absurd rfl (hne t list)
  | _ => cases hl

theorem elementOnWire_settled {R : String → Object → Bytes → Prop} {l : Layout} {v : Value}
    {part : Bytes} (hfits : c.FitsElement l v)
    (h : c.ElementOnWire (fun _ q part => c.encode q = .ok part) l v part)
    (hR : ∀ target q, v = .object q → c.Conforms target q → c.encode q = .ok part →
      R target (q.settled c) part) : c.ElementOnWire R l (v.settled c) part := by
  cases v with
  | scalar s => exact h
  | list vs => cases h
  | object q =>
      obtain ⟨target, htarget, hconforms⟩ := fitsElement_object.1 hfits
      obtain ⟨-, -, hencode⟩ := h
      exact ⟨target, htarget, hR target q rfl hconforms hencode⟩

theorem fieldOnWire_settled {R : String → Object → Bytes → Prop} (hs : c.Sound)
    (ho : c.Conforms name o) (hconsistent : c.Consistent o) (he : c.encode o = .ok bs)
    (hp : c.plan o.className = .ok p) (hf : f ∈ p.fields)
    (hR : ∀ v target q part, o.own? f.name = some v → q ∈ v.parts → c.Conforms target q →
      c.encode q = .ok part → R target (q.settled c) part)
    {part : Bytes} (h : c.encodeField o f = .ok part) :
    c.StepOnWire R (o.settled c) (.field f) part := by
  obtain ⟨v, hv, hfits⟩ := exists_own? ho (ho.1 ▸ hp) (hs hp) hf
  cases hl : f.layout.isList with
  | true =>
      have hne : ∀ t list, f.layout ≠ .lengthOf t list := by
        rintro t list hlayout
        simp [hlayout, Layout.isList, Layout.isFixedList, Layout.isVariableList] at hl
      obtain ⟨vs, parts, hvs, hlength, hparts, rfl⟩ := (encodeField_of_isList hl).1 h
      have hlist := lengthFor?_settled hs ho hconsistent he hp hf hvs hl hlength
      rw [hv] at hvs
      cases hvs
      refine ⟨.list (vs.map (Value.settled c)), ?_, (valueOnWire_of_isList hl).2
        ⟨_, parts, rfl, by rw [hlist, List.length_map], ?_, rfl⟩⟩
      · rw [own?_settled_of_ne hp (hs hp) hf hne, hv]
        simp [Value.settled, Value.settledAll_eq]
      · rw [List.forall₂_map_left_iff]
        apply forall₂_imp_getElem? hparts
        intro i w part hi _ hw
        have hmem := List.mem_of_getElem? hi
        apply elementOnWire_settled ((fits_list.1 hfits).2.2 w hmem) hw
        rintro target q rfl hconforms hencode
        exact hR _ target q part hv (List.mem_filterMap.2 ⟨_, hmem, rfl⟩) hconforms hencode
  | false =>
      by_cases hlayout : ∃ t list, f.layout = .lengthOf t list
      · obtain ⟨t, list, hlayout⟩ := hlayout
        obtain ⟨vs, s, hvs, hlength, rfl⟩ := (encodeField_lengthOf hlayout).1 h
        refine ⟨_, own?_settled_of_lengthOf hp (hs hp) hf hlayout hv hvs hlength, hl, ?_, rfl⟩
        rw [hlayout, Scalar.type_of_ofInt? hlength]
        rfl
      · have hne : ∀ t list, f.layout ≠ .lengthOf t list := fun t list heq => hlayout ⟨t, list, heq⟩
        obtain ⟨v', hv', helement⟩ := elementOnWire_of_encodeField hl hne h
        rw [hv] at hv'
        cases hv'
        refine ⟨v.settled c, by rw [own?_settled_of_ne hp (hs hp) hf hne, hv]; rfl,
          (valueOnWire_of_not_isList hl).2 (elementOnWire_settled (hfits.element hl) helement ?_)⟩
        rintro target q rfl hconforms hencode
        exact hR _ target q part hv (List.mem_singleton.2 rfl) hconforms hencode

theorem onWire_settled (hs : c.Sound) {depth : Nat} (ho : c.Conforms name o)
    (hconsistent : o.Every c.Consistent) (he : c.encode o = .ok bs) (hdepth : o.height ≤ depth) :
    c.OnWire depth name (o.settled c) bs := by
  induction depth generalizing name o bs with
  | zero =>
      obtain ⟨className, parent, fields⟩ := o
      simp [Object.height] at hdepth
  | succ depth ih =>
      obtain ⟨p, parts, hp, hsteps, rfl⟩ := c.encode_eq_ok.1 he
      obtain ⟨p', hp', hparent, hfields⟩ := ho.2.here
      rw [hp] at hp'
      cases hp'
      refine ⟨p, parts, ho.1 ▸ hp, Object.className_settled.trans ho.1, ?_,
        Object.names_settled.trans (map_name_of_forall₂ hfields), ?_, rfl⟩
      · rw [Object.parent_settled, ← hparent]
        simp
      apply forall₂_imp_getElem? hsteps
      intro i step part hi _ hstep
      have hmem := List.mem_of_getElem? hi
      cases step with
      | parent target =>
          obtain ⟨q, hq, hencode⟩ := bind_eq_ok.1 hstep
          rw [Object.needParent_eq_ok] at hq
          obtain ⟨target', htarget, hconforms⟩ := exists_parent ho (ho.1 ▸ hp) hq
          rw [mem_wireSteps_parent.1 hmem] at htarget
          cases htarget
          have hlt := Object.parent_height_lt hq
          exact ⟨q.settled c, by rw [Object.parent_settled, hq]; rfl,
            ih hconforms (hconsistent.parent hq) hencode (by omega)⟩
      | field f =>
          refine fieldOnWire_settled hs ho hconsistent.here he hp (mem_wireSteps_field.1 hmem)
            (fun v target q part hv hq hconforms hencode => ?_) hstep
          have hlt := Object.height_lt_of_own? hv hq
          exact ih hconforms (hconsistent.own hv hq) hencode (by omega)

section Sample

variable {n m : BitVec 8} {e : Endian}

theorem every_sampleDerived {P : Object → Prop} (hitem : P (.sampleBase m []))
    (hbase : P (.sampleBase n [.object (.sampleBase m [])])) (hderived : P (.sampleDerived n m)) :
    (Object.sampleDerived n m).Every P := by
  refine .intro hderived fun q hq => ?_
  obtain rfl : q = .sampleBase n [.object (.sampleBase m [])] := List.mem_singleton.1 hq
  refine .intro hbase fun q hq => ?_
  obtain rfl : q = .sampleBase m [] := List.mem_singleton.1 hq
  exact .intro hitem fun q hq => absurd hq List.not_mem_nil

theorem conforms_sampleDerived :
    (ofRegistry Registry.sample e).Conforms "B" (.sampleDerived n m) := by
  rw [ofRegistry_sample]
  refine ⟨rfl, every_sampleDerived ⟨Plan.sampleBase, rfl, rfl, ?_⟩ ⟨Plan.sampleBase, rfl, rfl, ?_⟩
    ⟨Plan.sampleDerived, rfl, rfl, ?_⟩⟩
  · refine .cons ⟨rfl, rfl, rfl⟩ (.cons ⟨rfl, rfl, ?_, ?_⟩ .nil)
    · rintro _ ⟨⟩
    · simp
  · refine .cons ⟨rfl, rfl, rfl⟩ (.cons ⟨rfl, rfl, ?_, ?_⟩ .nil)
    · rintro _ ⟨⟩
    · exact List.forall_mem_singleton.2 rfl
  · refine .cons ⟨rfl, rfl, ?_, ?_⟩ .nil
    · rintro _ ⟨⟩
    · exact List.forall_mem_singleton.2 rfl

theorem consistent_sampleDerived :
    (Object.sampleDerived n m).Every (ofRegistry Registry.sample e).Consistent := by
  rw [ofRegistry_sample]
  have hbase (n : BitVec 8) (items : List Value) :
      Consistent ⟨[("A", .ok Plan.sampleBase), ("B", .ok Plan.sampleDerived)], e⟩
        (.sampleBase n items) := by
    -- The base class counts its list by a field of its own.
    rintro p ⟨⟩ f hf s hs hdepth
    simp only [Plan.sampleBase, List.mem_cons, List.not_mem_nil, or_false] at hf
    rcases hf with rfl | rfl
    · cases hs
    · cases hs
      cases hdepth
  apply every_sampleDerived (hbase m []) (hbase n _)
  rintro p ⟨⟩ f hf s hs -
  obtain rfl := List.mem_singleton.1 hf
  cases hs
  rfl

end Sample

/-- Decoding undoes encoding, up to the numbers that lengths are written in place of. -/
theorem decodeInto_encode {source : String} {loaded : Loaded} (h : Schema.check source = .ok loaded)
    {e : Endian} (hc : c = Codec.ofRegistry loaded.schema.registry e) {name : String}
    (ho : c.Conforms name o) (hconsistent : o.Every c.Consistent) (he : c.encode o = .ok bs)
    (rest : Bytes) : ∃ new, c.instantiate name = .ok new ∧
      c.decodeInto new (bs ++ rest) = ⟨o.settled c, .ok rest⟩ ∧
      used (bs ++ rest) (c.decodeInto new (bs ++ rest)) = .ok bs.length := by
  have hs : c.Sound := hc ▸ sound_of_check h e
  have hplans : c.plans = Plan.all loaded.schema.registry := by rw [hc]; rfl
  obtain ⟨new, hnew⟩ := exists_instantiate hplans ho
  have hdecode : c.decodeInto new (bs ++ rest) = ⟨o.settled c, .ok rest⟩ := by
    refine (decodes_decodeWithin hplans hs _ (conforms_of_instantiate hplans hnew) _ _ _).2
      ⟨bs, rfl, ?_⟩
    apply onWire_of_le hplans hs (onWire_settled hs ho hconsistent he (Nat.le_refl _))
    have hrank := loaded.schema.registry.rank_le name
    have hlength : c.plans.length = loaded.schema.registry.classes.length := by
      simp [hplans, Plan.all]
    have hbytes : (bs.length + 1) * (c.plans.length + 1) ≤
        ((bs ++ rest).length + 2) * (c.plans.length + 1) :=
      Nat.mul_le_mul_right _ (by rw [List.length_append]; omega)
    rw [Nat.succ_mul, hlength] at hbytes
    rw [hlength]
    omega
  exact ⟨new, hnew, hdecode, by simp [hdecode, used, Except.map]⟩

theorem decodeInto_encode_sample :
    (ofRegistry Registry.sample .big).encode (.sampleDerived 5 7) = .ok [1, 0, 0, 3] ∧
    ∃ new, (ofRegistry Registry.sample .big).instantiate "B" = .ok new ∧
      (ofRegistry Registry.sample .big).decodeInto new [1, 0, 0, 3, 9] =
        ⟨.sampleDerived 1 0, .ok [9]⟩ := by
  obtain ⟨loaded, hloaded, hr⟩ := Schema.check_sample
  obtain ⟨new, hnew, hdecode, -⟩ := decodeInto_encode hloaded (by rw [hr]) conforms_sampleDerived
    consistent_sampleDerived encode_sampleDerived [9]
  have hsettled : (Object.sampleDerived 5 7).settled (ofRegistry Registry.sample .big) =
      .sampleDerived 1 0 := by
    rw [ofRegistry_sample]
    decide +kernel
  exact ⟨encode_sampleDerived, new, hnew, by rw [← hsettled]; exact hdecode⟩

end Codec

end WireSchema
