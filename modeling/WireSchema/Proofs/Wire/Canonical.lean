import WireSchema.Proofs.Wire.Decoding

namespace WireSchema

open Outcome

namespace Object

def listLength? (o : Object) (name : String) : Option Nat :=
  ((o.own? name).bind Value.list?).map List.length

theorem listLength?_of_own? {o : Object} {name : String} {vs : List Value}
    (h : o.own? name = some (.list vs)) : o.listLength? name = some vs.length := by
  simp [listLength?, h, Value.list?]

theorem own?_of_listLength? {o : Object} {name : String} {n : Nat}
    (h : o.listLength? name = some n) : ∃ vs, o.own? name = some (.list vs) ∧ vs.length = n := by
  obtain ⟨vs, hvs, hn⟩ := Option.map_eq_some_iff.1 h
  obtain ⟨v, hv, hlist⟩ := Option.bind_eq_some_iff.1 hvs
  cases v with
  | list ws => cases hlist; exact ⟨vs, hv, hn⟩
  | scalar s => cases hlist
  | object q => cases hlist

theorem lookup_of_mem {es : List (String × Value)} (hnodup : (es.map Prod.fst).Nodup)
    {e : String × Value} (he : e ∈ es) : es.lookup e.1 = some e.2 := by
  obtain ⟨pre, post, rfl⟩ := List.append_of_mem he
  apply lookup_append_cons
  intro hmem
  rw [List.map_append, List.map_cons] at hnodup
  exact (List.nodup_append.1 hnodup).2.2 _ hmem _ (by simp) rfl

end Object

namespace Codec

/-- The numbers that an object itself holds for its lists are their lengths: in the fields that are
written as the length of a list, and in those, inherited or not, that count one. -/
def Counted (c : Codec) (o : Object) : Prop :=
  ∀ p, c.plan o.className = .ok p → ∀ f ∈ p.fields,
    (∀ t list, f.layout = .lengthOf t list →
      ∃ n, (o.own? f.name).bind Value.toCount? = some n ∧ o.listLength? list = some n) ∧
    ∀ s, f.layout.count? = some s → ∃ n, o.countAt? s = some n ∧ o.listLength? f.name = some n

variable {c : Codec} {o q : Object} {bs : Bytes} {depth : Nat} {name : String}

theorem exists_of_mem_parts {R : String → Object → Bytes → Prop} {l : Layout} {v : Value}
    (h : c.ValueOnWire R o l v bs) (hq : q ∈ v.parts) : ∃ target part, R target q part := by
  cases v with
  | scalar s => cases hq
  | object q' =>
      obtain ⟨-, target, -, h⟩ := h
      cases List.mem_singleton.1 hq
      exact ⟨target, bs, h⟩
  | list vs =>
      obtain ⟨-, -, parts, hvs, -⟩ := h
      obtain ⟨v, hv, hq⟩ := List.mem_filterMap.1 hq
      obtain ⟨part, -, hpart⟩ := exists_right_of_mem hvs hv
      cases v with
      | scalar s => cases hq
      | list ws => cases hq
      | object q' =>
          cases hq
          obtain ⟨target, -, h⟩ := hpart
          exact ⟨target, part, h⟩

theorem onWire_parts (hs : c.Sound) (h : c.OnWire (depth + 1) name o bs) (hq : q ∈ o.parts) :
    ∃ target part, c.OnWire depth target q part := by
  obtain ⟨p, parts, hp, -, hparent, hnames, hsteps, -⟩ := h
  rcases Object.mem_parts.1 hq with hq | ⟨e, he, hq⟩
  · obtain ⟨target, htarget⟩ : ∃ target, p.parent = some target := by
      rw [← Option.isSome_iff_exists, ← hparent, hq]
      rfl
    obtain ⟨part, -, q', hq', hwire⟩ := exists_right_of_mem hsteps (mem_wireSteps_parent.2 htarget)
    rw [hq] at hq'
    cases hq'
    exact ⟨target, part, hwire⟩
  · have hmem : e.1 ∈ p.fields.map FieldPlan.name := hnames ▸ List.mem_map_of_mem he
    obtain ⟨f, hf, hname⟩ := List.mem_map.1 hmem
    obtain ⟨part, -, v, hv, hwire⟩ := exists_right_of_mem hsteps (mem_wireSteps_field.2 hf)
    have hown : o.own? f.name = some e.2 :=
      hname ▸ Object.lookup_of_mem (hnames ▸ (hs hp).names) he
    rw [hown] at hv
    cases hv
    exact exists_of_mem_parts hwire hq

theorem every_of_onWire {P : Object → Prop} (hs : c.Sound)
    (hP : ∀ {depth name o bs}, c.OnWire depth name o bs → P o) (h : c.OnWire depth name o bs) :
    o.Every P := by
  induction depth generalizing name o bs with
  | zero => cases h
  | succ depth ih =>
      refine .intro (hP h) fun q hq => ?_
      obtain ⟨target, part, hwire⟩ := onWire_parts hs h hq
      exact ih hwire

theorem isList_of_count? {l : Layout} {s : CountSource} (h : l.count? = some s) : l.isList := by
  cases l <;> simp_all [Layout.count?, Layout.isList, Layout.isFixedList, Layout.isVariableList]

theorem lengthFor?_of_count? {l : Layout} {s : CountSource} (h : l.count? = some s) :
    o.lengthFor? l = o.countAt? s := by
  cases l <;> simp_all [Layout.count?, Object.lengthFor?, Layout.fixedLength?]

theorem counted_of_onWire (hs : c.Sound) (h : c.OnWire depth name o bs) : c.Counted o := by
  cases depth with
  | zero => cases h
  | succ depth =>
      obtain ⟨p, parts, hp, rfl, -, -, hsteps, -⟩ := h
      have hlist {f : FieldPlan} (hf : f ∈ p.fields) {s : CountSource}
          (hcount : f.layout.count? = some s) :
          ∃ n, o.countAt? s = some n ∧ o.listLength? f.name = some n := by
        obtain ⟨part, -, v, hv, hwire⟩ := exists_right_of_mem hsteps (mem_wireSteps_field.2 hf)
        obtain ⟨vs, -, rfl, hn, -⟩ := (valueOnWire_of_isList (isList_of_count? hcount)).1 hwire
        rw [lengthFor?_of_count? hcount] at hn
        exact ⟨vs.length, hn, Object.listLength?_of_own? hv⟩
      intro p' hp' f hf
      rw [hp] at hp'
      cases hp'
      refine ⟨fun t list hl => ?_, fun s hcount => hlist hf hcount⟩
      obtain ⟨g, hg, rfl, s, hcount, hd, hfield⟩ := (hs hp).counts hf hl
      obtain ⟨n, hn, hlength⟩ := hlist hg hcount
      refine ⟨n, ?_, hlength⟩
      simpa [Object.countAt?, hd, Object.atDepth?, hfield] using hn

theorem className_of_onWire (h : c.OnWire depth name o bs) : o.className = name := by
  cases depth with
  | zero => cases h
  | succ depth =>
      obtain ⟨_, _, _, hclass, _⟩ := h
      exact hclass

theorem encodeScalar_eq_ok_iff {l : Layout} {t : Primitive} (ht : l.scalarType? = some t)
    (hn : l.className? = none) (className field : String) :
    (fun v part => c.encodeScalar className field t v = .ok part) =
      c.ElementOnWire (fun _ q part => c.encode q = .ok part) l := by
  funext v part
  exact propext (encodeScalar_eq_ok.trans (elementOnWire_of_scalarType? ht hn).symm)

theorem encodeItem_eq_ok_iff {l : Layout} {target : String} (hn : l.className? = some target)
    (ht : l.scalarType? = none) (className field : String) :
    (fun v part => c.encodeItem className field target v = .ok part) =
      c.ElementOnWire (fun _ q part => c.encode q = .ok part) l := by
  funext v part
  rw [elementOnWire_of_className? hn ht]
  exact propext encodeItem_eq_ok

/-- A list is encoded item by item. The class of an item is not looked at. -/
theorem encodeField_of_isList {f : FieldPlan} (hl : f.layout.isList) :
    c.encodeField o f = .ok bs ↔ ∃ vs parts, o.own? f.name = some (.list vs) ∧
      (∀ n, f.layout.fixedLength? = some n → vs.length = n) ∧
      List.Forall₂ (c.ElementOnWire (fun _ q part => c.encode q = .ok part) f.layout) vs parts ∧
      bs = parts.flatten := by
  obtain ⟨fieldName, comment, layout, default, text⟩ := f
  cases layout with
  | scalar t | lengthOf t list | nested target => cases hl
  | fixedScalars t length | scalarList t s =>
      rw [← encodeScalar_eq_ok_iff rfl rfl o.className fieldName]
      exact encodeList_eq_ok
  | fixedNested target length | nestedList target s =>
      rw [← encodeItem_eq_ok_iff rfl rfl o.className fieldName]
      exact encodeList_eq_ok

theorem encodeField_of_onWire {R : String → Object → Bytes → Prop}
    (hR : ∀ target q part, R target q part → q.className = target ∧ c.encode q = .ok part)
    {p : Plan} {f : FieldPlan} {part : Bytes} (hcounted : c.Counted o)
    (hp : c.plan o.className = .ok p) (hf : f ∈ p.fields)
    (h : c.StepOnWire R o (.field f) part) : c.encodeField o f = .ok part := by
  obtain ⟨v, hv, hwire⟩ := h
  cases hl : f.layout.isList with
  | true =>
      obtain ⟨vs, parts, rfl, hlength, hparts, rfl⟩ := (valueOnWire_of_isList hl).1 hwire
      refine (encodeField_of_isList hl).2 ⟨vs, parts, hv, ?_, ?_, rfl⟩
      · intro n hn
        simpa [Object.lengthFor?, hn, eq_comm] using hlength
      · exact hparts.imp fun _ _ helement => helement.imp fun target q _ hq => (hR target q _ hq).2
  | false =>
      have hcounts := (hcounted p hp f hf).1
      rw [encodeField]
      cases hlayout : f.layout with
      | scalar t =>
          rw [hlayout] at hwire
          obtain ⟨s, rfl, rfl, rfl⟩ := (valueOnWire_of_scalarType? rfl rfl rfl).1 hwire
          exact bind_eq_ok.2 ⟨_, Object.needOwn_eq_ok.2 hv, encodeScalar_eq_ok.2 ⟨s, rfl, rfl, rfl⟩⟩
      | lengthOf t list =>
          rw [hlayout] at hwire
          obtain ⟨s, rfl, rfl, rfl⟩ := (valueOnWire_of_scalarType? rfl rfl rfl).1 hwire
          obtain ⟨n, hn, hlength⟩ := hcounts s.type list hlayout
          obtain ⟨vs, hvs, rfl⟩ := Object.own?_of_listLength? hlength
          rw [hv, Option.bind_some, Value.toCount?_scalar] at hn
          exact bind_eq_ok.2 ⟨vs, Object.needList_eq_ok.2 hvs,
            encodeLength_eq_ok.2 ⟨s, Scalar.ofInt?_toInt? hn, rfl⟩⟩
      | nested target =>
          rw [hlayout] at hwire
          obtain ⟨q, rfl, hq⟩ := (valueOnWire_of_className? rfl rfl rfl).1 hwire
          exact encodePart_eq_ok.2 ⟨q, hv, hR target q part hq⟩
      | _ => simp [hlayout, Layout.isList, Layout.isFixedList, Layout.isVariableList] at hl

theorem encode_of_onWire (hs : c.Sound) (h : c.OnWire depth name o bs) : c.encode o = .ok bs := by
  induction depth generalizing name o bs with
  | zero => cases h
  | succ depth ih =>
      have hcounted := counted_of_onWire hs h
      obtain ⟨p, parts, hp, rfl, -, -, hsteps, rfl⟩ := h
      refine c.encode_eq_ok.2 ⟨p, parts, hp, ?_, rfl⟩
      apply forall₂_imp_getElem? hsteps
      intro i step part hi _ hstep
      cases step with
      | parent target =>
          obtain ⟨q, hq, hwire⟩ := hstep
          exact bind_eq_ok.2 ⟨q, Object.needParent_eq_ok.2 hq, ih hwire⟩
      | field f =>
          have hf := mem_wireSteps_field.1 (List.mem_of_getElem? hi)
          exact encodeField_of_onWire
            (fun target q part hq => ⟨className_of_onWire hq, ih hq⟩) hcounted hp hf hstep

theorem sound_of_check {source : String} {loaded : Loaded} (h : Schema.check source = .ok loaded)
    (e : Endian) : (Codec.ofRegistry loaded.schema.registry e).Sound := by
  obtain ⟨hlinked, hvalid⟩ := Schema.valid_of_check h
  intro name p hp
  obtain ⟨d, hd, -, hb⟩ := built_of_plan rfl hp
  exact hb.sound (hlinked d hd) (hvalid d hd)

/-- Encoding undoes decoding. -/
theorem encode_decodeInto {source : String} {loaded : Loaded} (h : Schema.check source = .ok loaded)
    {e : Endian} (hc : c = Codec.ofRegistry loaded.schema.registry e) {name : String} {new : Object}
    (hnew : c.instantiate name = .ok new) {bs : Bytes} {k : Nat}
    (hk : used bs (c.decodeInto new bs) = .ok k) :
    c.Conforms name (c.decodeInto new bs).object ∧ (c.decodeInto new bs).object.Every c.Counted ∧
      c.encode (c.decodeInto new bs).object = .ok (bs.take k) := by
  have hs : c.Sound := hc ▸ sound_of_check h e
  have hplans : c.plans = Plan.all loaded.schema.registry := by rw [hc]; rfl
  cases hd : c.decodeInto new bs with
  | mk o rest =>
      rw [hd] at hk
      cases rest with
      | error error => cases hk
      | ok rest =>
          cases hk
          obtain ⟨chunk, rfl, hwire⟩ :=
            (decodes_decodeWithin hplans hs _ (conforms_of_instantiate hplans hnew) bs o rest).1 hd
          refine ⟨conforms_of_onWire hs hwire, every_of_onWire hs (counted_of_onWire hs) hwire, ?_⟩
          rw [encode_of_onWire hs hwire]
          simp

theorem encode_decodeInto_sample : ∃ c new, c = ofRegistry Registry.sample .big ∧
    c.instantiate "B" = .ok new ∧
    used [1, 0, 0, 3, 9] (c.decodeInto new [1, 0, 0, 3, 9]) = .ok 4 ∧
    c.Conforms "B" (c.decodeInto new [1, 0, 0, 3, 9]).object ∧
    (c.decodeInto new [1, 0, 0, 3, 9]).object.Every c.Counted ∧
    c.encode (c.decodeInto new [1, 0, 0, 3, 9]).object = .ok [1, 0, 0, 3] := by
  obtain ⟨loaded, hloaded, hr⟩ := Schema.check_sample
  have hused : used [1, 0, 0, 3, 9] ((ofRegistry Registry.sample .big).decodeInto
      (.mk "B" (some (.sampleBase 0 [])) [("v", .list [])]) [1, 0, 0, 3, 9]) = .ok 4 := by
    rw [ofRegistry_sample]
    decide +kernel
  exact ⟨_, _, rfl, instantiate_sampleDerived, hused,
    encode_decodeInto hloaded (by rw [hr]) instantiate_sampleDerived hused⟩

end Codec

end WireSchema
