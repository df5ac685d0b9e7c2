import WireSchema.Proofs.Wire.Comparison
import WireSchema.Proofs.Wire.RoundTrip

namespace WireSchema

open Outcome

namespace Scalar

/-- A scalar that is compared bit by bit: an integer, or a number other than the two zeros. -/
def Discrete (s : Scalar) : Prop :=
  ∀ f, s.type.format? = some f → f.isNaN s.word.toNat = false ∧ f.isZero s.word.toNat = false

theorem same_iff_eq {a b : Scalar} (ha : a.Discrete) : a.same b ↔ a = b := by
  obtain ⟨t, word⟩ := a
  rw [same]
  cases hf : t.format? with
  | none => simp
  | some f =>
      obtain ⟨hnan, hzero⟩ := ha f hf
      constructor
      · intro h
        obtain ⟨t', word'⟩ := b
        simp only [Bool.and_eq_true, beq_iff_eq] at h
        obtain ⟨rfl, h⟩ := h
        simp only [BinaryFormat.sameNumber, hzero, Bool.false_and, Bool.or_false, Bool.and_eq_true,
          beq_iff_eq] at h
        rw [BitVec.eq_of_toNat_eq h.2]
      · rintro rfl
        simp [BinaryFormat.sameNumber, hnan]

end Scalar

def Value.scalars : Value → List Scalar
  | .scalar s => [s]
  | .list vs => vs.filterMap Value.scalar?
  | .object _ => []

namespace Object

def Discrete (o : Object) : Prop :=
  ∀ e ∈ o.fields, ∀ s ∈ e.2.scalars, s.Discrete

theorem Discrete.own {o : Object} (h : o.Discrete) {n : String} {v : Value} (hv : o.own? n = some v)
    {s : Scalar} (hs : s ∈ v.scalars) : s.Discrete := by
  obtain ⟨pre, post, hfields, -⟩ := exists_of_lookup hv
  exact h (n, v) (by simp [hfields]) s hs

end Object

namespace Layout

def IsElement (l : Layout) : Prop :=
  (∃ t, l = .scalar t) ∨ ∃ target, l = .nested target

theorem isList_or_isElement (l : Layout) : l.isList ∨
    l.isList = false ∧ ((∃ t list, l = .lengthOf t list) ∨ l.IsElement) := by
  cases l <;> simp [isList, isFixedList, isVariableList, IsElement]

theorem IsElement.ne_lengthOf {l : Layout} (h : l.IsElement) (t : Primitive) (list : String) :
    l ≠ .lengthOf t list := by
  rcases h with ⟨s, rfl⟩ | ⟨target, rfl⟩
  · simp
  · simp

theorem ne_lengthOf_of_isList {l : Layout} (h : l.isList) (t : Primitive) (list : String) :
    l ≠ .lengthOf t list := by
  rintro rfl
  cases h

end Layout

namespace Codec

variable {c : Codec} {a b : Object} {lead path : String} {f : FieldPlan}

theorem valueDifferences_element {v w : Value} (hl : f.layout.IsElement)
    (hv : a.own? f.name = some v) (hw : b.own? f.name = some w) (hfv : c.FitsElement f.layout v)
    (hfw : c.FitsElement f.layout w) :
    c.valueDifferences path a b f = c.itemDifferences path v w := by
  rcases hl with ⟨t, hl⟩ | ⟨target, hl⟩
  · rw [hl] at hfv hfw
    obtain ⟨s, rfl⟩ := hfv.exists_scalar rfl
    obtain ⟨s', rfl⟩ := hfw.exists_scalar rfl
    simp [valueDifferences, hl, Object.needOwn_eq_ok.2 hv, Object.needOwn_eq_ok.2 hw, itemDifferences]
  · rw [hl] at hfv hfw
    obtain ⟨q, -, rfl, -⟩ := hfv.exists_object rfl
    obtain ⟨q', -, rfl, -⟩ := hfw.exists_object rfl
    simp [valueDifferences, hl, Object.needObject_eq_ok.2 hv, Object.needObject_eq_ok.2 hw,
      itemDifferences]

theorem same_scalar {s : Scalar} {y : Value} (hs : s.Discrete) :
    (Value.scalar s).same y ↔ y = .scalar s := by
  cases y with
  | scalar t => simp [Value.same, Scalar.same_iff_eq hs, eq_comm]
  | list ys => simp [Value.same]
  | object q => simp [Value.same]

def Held (a : Object) (x : Value) : Prop :=
  (∀ s, x = .scalar s → s.Discrete) ∧
    ∀ q, x = .object q → q.height < a.height ∧ q.Every Object.Discrete

theorem held_of_own? (h : a.Every Object.Discrete) {n : String} {v : Value}
    (hv : a.own? n = some v) : Held a v := by
  constructor
  · rintro s rfl
    exact h.here.own hv (List.mem_singleton.2 rfl)
  · rintro q rfl
    have hq : q ∈ (Value.object q).parts := List.mem_singleton.2 rfl
    exact ⟨Object.height_lt_of_own? hv hq, h.own hv hq⟩

theorem held_of_mem (h : a.Every Object.Discrete) {n : String} {xs : List Value}
    (hv : a.own? n = some (.list xs)) {x : Value} (hx : x ∈ xs) : Held a x := by
  constructor
  · rintro s rfl
    exact h.here.own hv (List.mem_filterMap.2 ⟨_, hx, rfl⟩)
  · rintro q rfl
    have hq : q ∈ (Value.list xs).parts := List.mem_filterMap.2 ⟨_, hx, rfl⟩
    exact ⟨Object.height_lt_of_own? hv hq, h.own hv hq⟩

theorem exists_conforms {l : Layout} {q q' : Object} (hq : c.FitsElement l (.object q))
    (hq' : c.FitsElement l (.object q')) : ∃ target, c.Conforms target q ∧ c.Conforms target q' := by
  obtain ⟨target, htarget, hconforms⟩ := fitsElement_object.1 hq
  obtain ⟨target', htarget', hconforms'⟩ := fitsElement_object.1 hq'
  rw [htarget] at htarget'
  cases htarget'
  exact ⟨target, hconforms, hconforms'⟩

def Alike (c : Codec) (x y : Value) : Prop :=
  x = y ∨ ∃ q q', x = .object q ∧ y = .object q' ∧ c.encode q = c.encode q'

theorem Alike.encodeScalar {x y : Value} (h : c.Alike x y) (className field : String)
    (t : Primitive) : c.encodeScalar className field t x = c.encodeScalar className field t y := by
  rcases h with rfl | ⟨q, q', rfl, rfl, -⟩
  · rfl
  · rfl

theorem Alike.encodeItem {x y : Value} (h : c.Alike x y) (className field expected : String) :
    c.encodeItem className field expected x = c.encodeItem className field expected y := by
  rcases h with rfl | ⟨q, q', rfl, rfl, h⟩
  · rfl
  · exact h

theorem mapM_eq_mapM {ε α β : Type} {f : α → Except ε β} {xs ys : List α}
    (hlength : xs.length = ys.length)
    (h : ∀ (i : Nat) x y, xs[i]? = some x → ys[i]? = some y → f x = f y) :
    xs.mapM f = ys.mapM f := by
  induction xs generalizing ys with
  | nil => rw [List.eq_nil_of_length_eq_zero hlength.symm]
  | cons x xs ih =>
      cases ys with
      | nil => cases hlength
      | cons y ys =>
          rw [List.mapM_cons, List.mapM_cons, h 0 x y rfl rfl,
            ih (Nat.succ.inj hlength) fun i x y hx hy => h (i + 1) x y hx hy]

theorem encodeList_congr {g : Value → Except CodecError Bytes} {className : String}
    {xs ys : List Value} (hxs : a.own? f.name = some (.list xs))
    (hys : b.own? f.name = some (.list ys)) (hlength : xs.length = ys.length)
    (h : xs.mapM g = ys.mapM g) :
    (do
      let vs ← a.needList f.name
      checkLength className f.name f.layout vs.length
      return (← vs.mapM g).flatten) =
    (do
      let vs ← b.needList f.name
      checkLength className f.name f.layout vs.length
      return (← vs.mapM g).flatten) := by
  rw [Object.needList_eq_ok.2 hxs, Object.needList_eq_ok.2 hys, ok_bind, ok_bind, hlength, h]

theorem encodeField_congr_list (hclass : a.className = b.className) (hl : f.layout.isList)
    {xs ys : List Value} (hxs : a.own? f.name = some (.list xs))
    (hys : b.own? f.name = some (.list ys)) (hlength : xs.length = ys.length)
    (h : ∀ (i : Nat) x y, xs[i]? = some x → ys[i]? = some y → c.Alike x y) :
    c.encodeField a f = c.encodeField b f := by
  obtain ⟨fieldName, comment, layout, default, text⟩ := f
  cases layout with
  | scalar t | lengthOf t list | nested target => cases hl
  | fixedScalars t length | scalarList t s =>
      simp only [encodeField, encodeScalars, hclass]
      exact encodeList_congr hxs hys hlength
        (mapM_eq_mapM hlength fun i x y hx hy => (h i x y hx hy).encodeScalar _ _ t)
  | fixedNested target length | nestedList target s =>
      simp only [encodeField, encodeItems, hclass]
      exact encodeList_congr hxs hys hlength
        (mapM_eq_mapM hlength fun i x y hx hy => (h i x y hx hy).encodeItem _ _ target)

theorem encodeField_congr_element {v w : Value} (hclass : a.className = b.className)
    (hl : f.layout.IsElement) (hv : a.own? f.name = some v) (hw : b.own? f.name = some w)
    (hfv : c.FitsElement f.layout v) (hfw : c.FitsElement f.layout w) (h : c.Alike v w) :
    c.encodeField a f = c.encodeField b f := by
  rcases hl with ⟨t, hl⟩ | ⟨target, hl⟩
  · simp only [encodeField, hl, Object.needOwn_eq_ok.2 hv, Object.needOwn_eq_ok.2 hw, ok_bind, hclass]
    exact h.encodeScalar _ _ t
  · rw [hl] at hfv hfw
    obtain ⟨q, _, rfl, ⟨⟩, hq⟩ := hfv.exists_object rfl
    obtain ⟨q', _, rfl, ⟨⟩, hq'⟩ := hfw.exists_object rfl
    simp only [encodeField, hl, encodePart, Object.needOwn_eq_ok.2 hv, Object.needOwn_eq_ok.2 hw,
      ok_bind, hq.1, hq'.1, hclass, if_true]
    exact h.encodeItem a.className f.name target

def PartsAlike (c : Codec) (a : Object) : Prop :=
  ∀ q q' : Object, q.height < a.height → q.Every Object.Discrete → ∀ target lead,
    c.Conforms target q → c.Conforms target q' → c.differencesAt lead q q' = .ok [] →
      c.encode q = c.encode q'

theorem alike_of_itemDifferences {l : Layout} {x y : Value} (ih : c.PartsAlike a) (hheld : Held a x)
    (hx : c.FitsElement l x) (hy : c.FitsElement l y) (h : c.itemDifferences path x y = .ok []) :
    c.Alike x y := by
  rcases itemDifferences_eq_nil.1 h with ⟨q, q', rfl, rfl, h⟩ | ⟨hnone, hsame⟩
  · obtain ⟨target, hq, hq'⟩ := exists_conforms hx hy
    obtain ⟨hheight, hdiscrete⟩ := hheld.2 q rfl
    exact .inr ⟨q, q', rfl, rfl, ih q q' hheight hdiscrete target _ hq hq' h⟩
  · cases x with
    | list xs => cases hx.1
    | object q => cases y <;> simp_all [Value.object?, Value.same]
    | scalar s => exact .inl ((same_scalar (hheld.1 s rfl)).1 hsame).symm

section Field

variable {name : String} {p : Plan}

theorem encodeField_congr (hs : c.Sound) (ha : c.Conforms name a) (hb : c.Conforms name b)
    (hdiscrete : a.Every Object.Discrete) (ih : c.PartsAlike a) (hp : c.plan name = .ok p)
    (hf : f ∈ p.fields) (h : c.termDifferences lead a b f.equalityTerm = .ok []) :
    c.encodeField a f = c.encodeField b f := by
  have hclass : a.className = b.className := ha.1.trans hb.1.symm
  obtain ⟨v, hv, hfv⟩ := exists_own? ha hp (hs hp) hf
  obtain ⟨w, hw, hfw⟩ := exists_own? hb hp (hs hp) hf
  rcases f.layout.isList_or_isElement with hl | ⟨hl, ⟨t, list, hlayout⟩ | helement⟩
  · simp only [FieldPlan.equalityTerm, hl, if_true, termDifferences] at h
    obtain ⟨xs, ys, hxs, hys, hlength, hitems⟩ := listDifferences_eq_nil.1 h
    obtain rfl : Value.list xs = v := Option.some.inj (hxs.symm.trans hv)
    obtain rfl : Value.list ys = w := Option.some.inj (hys.symm.trans hw)
    refine encodeField_congr_list hclass hl hxs hys hlength fun i x y hx hy => ?_
    have hxmem := List.mem_of_getElem? hx
    exact alike_of_itemDifferences ih (held_of_mem hdiscrete hv hxmem)
      ((fits_list.1 hfv).2.2 x hxmem) ((fits_list.1 hfw).2.2 y (List.mem_of_getElem? hy))
      (hitems i x y hx hy)
  · simp only [FieldPlan.equalityTerm, hl, Bool.false_eq_true, if_false, termDifferences] at h
    obtain ⟨xs, ys, hxs, hys, hlength⟩ := (valueDifferences_lengthOf hlayout).1 h
    simp only [encodeField, hlayout, Object.needList_eq_ok.2 hxs, Object.needList_eq_ok.2 hys,
      ok_bind, hclass, hlength]
  · simp only [FieldPlan.equalityTerm, hl, Bool.false_eq_true, if_false, termDifferences] at h
    have hev := hfv.element hl
    have hew := hfw.element hl
    rw [valueDifferences_element helement hv hw hev hew] at h
    exact encodeField_congr_element hclass helement hv hw hev hew
      (alike_of_itemDifferences ih (held_of_own? hdiscrete hv) hev hew h)

theorem exists_parent_of_plan {o : Object} (ho : c.Conforms name o)
    (hp : c.plan o.className = .ok p) {target : String} (htarget : p.parent = some target) :
    ∃ q, o.parent = some q ∧ c.Conforms target q := by
  obtain ⟨p', hp', hparent, -⟩ := ho.2.here
  rw [hp] at hp'
  cases hp'
  rw [htarget] at hparent
  obtain ⟨q, hq, hclass⟩ := Option.map_eq_some_iff.1 hparent
  exact ⟨q, hq, hclass, ho.2.parent hq⟩

theorem mem_equalityTerms (hf : f ∈ p.fields) : f.equalityTerm ∈ p.equalityTerms :=
  List.mem_append_right _ (List.mem_map_of_mem hf)

theorem encode_eq_of_differencesAt (hs : c.Sound) {name lead : String} {a b : Object}
    (ha : c.Conforms name a) (hb : c.Conforms name b) (hdiscrete : a.Every Object.Discrete)
    (h : c.differencesAt lead a b = .ok []) : c.encode a = c.encode b := by
  have ih : c.PartsAlike a := fun q q' _ hq target lead hconforms hconforms' h =>
    encode_eq_of_differencesAt hs hconforms hconforms' hq h
  obtain ⟨hclass, p, hp, hterms⟩ := differencesAt_eq_nil.1 h
  rw [encode_eq, encode_eq, ← hclass, hp, ok_bind, ok_bind]
  congr 1
  apply mapM_congr
  intro step hstep
  cases step with
  | parent target =>
      have htarget := mem_wireSteps_parent.1 hstep
      obtain ⟨q, hq, hconforms⟩ := exists_parent_of_plan ha hp htarget
      obtain ⟨q', hq', hconforms'⟩ := exists_parent_of_plan hb (hclass ▸ hp) htarget
      have hterm := hterms (.parent target) (by simp [Plan.equalityTerms, htarget])
      simp only [termDifferences, encodeStep, Object.needParent_eq_ok.2 hq,
        Object.needParent_eq_ok.2 hq', ok_bind] at hterm ⊢
      exact ih q q' (Object.parent_height_lt hq) (hdiscrete.parent hq) target lead hconforms
        hconforms' hterm
  | field f =>
      have hf := mem_wireSteps_field.1 hstep
      exact encodeField_congr hs ha hb hdiscrete ih (ha.1 ▸ hp) hf (hterms _ (mem_equalityTerms hf))
termination_by a.height

theorem settled_eq_of_own? (hs : p.Sound) (hclass : a.className = b.className)
    (hp : c.plan a.className = .ok p) (hf : f ∈ p.fields)
    (hl : ∀ t list, f.layout ≠ .lengthOf t list) (h : a.settled c = b.settled c) {v w : Value}
    (hv : a.own? f.name = some v) (hw : b.own? f.name = some w) : v.settled c = w.settled c := by
  have hown := own?_settled_of_ne hp hs hf hl
  rw [h, own?_settled_of_ne (hclass ▸ hp) hs hf hl, hv, hw] at hown
  exact (Option.some.inj hown).symm

def PartsSame (c : Codec) (a : Object) : Prop :=
  ∀ q q' : Object, q.height < a.height → q.Every Object.Discrete → ∀ target lead,
    c.Conforms target q → c.Conforms target q' → q.settled c = q'.settled c →
      c.differencesAt lead q q' = .ok []

theorem itemDifferences_of_settled {l : Layout} {x y : Value} (ih : c.PartsSame a)
    (hheld : Held a x) (hx : c.FitsElement l x) (hy : c.FitsElement l y)
    (h : x.settled c = y.settled c) : c.itemDifferences path x y = .ok [] := by
  rw [itemDifferences_eq_nil]
  cases x with
  | list xs => cases hx.1
  | scalar s =>
      cases y with
      | scalar t =>
          simp only [Value.settled, Value.scalar.injEq] at h
          subst h
          exact .inr ⟨.inl rfl, (same_scalar (hheld.1 s rfl)).2 rfl⟩
      | list ys => cases hy.1
      | object q => simp [Value.settled] at h
  | object q =>
      cases y with
      | scalar t => simp [Value.settled] at h
      | list ys => cases hy.1
      | object q' =>
          simp only [Value.settled, Value.object.injEq] at h
          obtain ⟨target, hq, hq'⟩ := exists_conforms hx hy
          obtain ⟨hheight, hdiscrete⟩ := hheld.2 q rfl
          exact .inl ⟨q, q', rfl, rfl, ih q q' hheight hdiscrete target _ hq hq' h⟩

theorem getElem?_settled {xs ys : List Value}
    (h : (Value.list xs).settled c = (Value.list ys).settled c) : xs.length = ys.length ∧
      ∀ (i : Nat) x y, xs[i]? = some x → ys[i]? = some y → x.settled c = y.settled c := by
  simp only [Value.settled, Value.settledAll_eq, Value.list.injEq] at h
  refine ⟨by simpa using congrArg List.length h, fun i x y hx hy => ?_⟩
  have hi := congrArg (·[i]?) h
  simpa [hx, hy] using hi

theorem listDifferences_of_settled (hdiscrete : a.Every Object.Discrete) (ih : c.PartsSame a)
    (hl : f.layout.isList) {v w : Value} (hv : a.own? f.name = some v) (hw : b.own? f.name = some w)
    (hfv : c.Fits f.layout v) (hfw : c.Fits f.layout w) (h : v.settled c = w.settled c) :
    c.listDifferences path a b f = .ok [] := by
  obtain ⟨xs, rfl, -, hxs⟩ := hfv.exists_list hl
  obtain ⟨ys, rfl, -, hys⟩ := hfw.exists_list hl
  obtain ⟨hlength, hitems⟩ := getElem?_settled h
  refine listDifferences_eq_nil.2 ⟨xs, ys, hv, hw, hlength, fun i x y hx hy => ?_⟩
  have hxmem := List.mem_of_getElem? hx
  exact itemDifferences_of_settled ih (held_of_mem hdiscrete hv hxmem) (hxs x hxmem)
    (hys y (List.mem_of_getElem? hy)) (hitems i x y hx hy)

theorem fieldDifferences_of_settled (hs : c.Sound) (ha : c.Conforms name a) (hb : c.Conforms name b)
    (hdiscrete : a.Every Object.Discrete) (ih : c.PartsSame a) (h : a.settled c = b.settled c)
    (hp : c.plan a.className = .ok p) (hf : f ∈ p.fields) :
    c.termDifferences lead a b f.equalityTerm = .ok [] := by
  have hclass : a.className = b.className := ha.1.trans hb.1.symm
  obtain ⟨v, hv, hfv⟩ := exists_own? ha (ha.1 ▸ hp) (hs hp) hf
  obtain ⟨w, hw, hfw⟩ := exists_own? hb (ha.1 ▸ hp) (hs hp) hf
  rcases f.layout.isList_or_isElement with hl | ⟨hl, ⟨t, list, hlayout⟩ | helement⟩
  · simp only [FieldPlan.equalityTerm, hl, if_true, termDifferences]
    exact listDifferences_of_settled hdiscrete ih hl hv hw hfv hfw
      (settled_eq_of_own? (hs hp) hclass hp hf (Layout.ne_lengthOf_of_isList hl) h hv hw)
  · simp only [FieldPlan.equalityTerm, hl, Bool.false_eq_true, if_false, termDifferences]
    -- the field that holds the length is compared through the list that it counts
    obtain ⟨g, hg, rfl, s, hcount, -⟩ := (hs hp).counts hf hlayout
    have hgl := isList_of_count? hcount
    obtain ⟨v, hv, hfv⟩ := exists_own? ha (ha.1 ▸ hp) (hs hp) hg
    obtain ⟨w, hw, hfw⟩ := exists_own? hb (ha.1 ▸ hp) (hs hp) hg
    obtain ⟨xs, rfl, -⟩ := hfv.exists_list hgl
    obtain ⟨ys, rfl, -⟩ := hfw.exists_list hgl
    have hsettled := settled_eq_of_own? (hs hp) hclass hp hg (Layout.ne_lengthOf_of_isList hgl) h hv hw
    exact (valueDifferences_lengthOf hlayout).2 ⟨xs, ys, hv, hw, (getElem?_settled hsettled).1⟩
  · simp only [FieldPlan.equalityTerm, hl, Bool.false_eq_true, if_false, termDifferences]
    rw [valueDifferences_element helement hv hw (hfv.element hl) (hfw.element hl)]
    exact itemDifferences_of_settled ih (held_of_own? hdiscrete hv) (hfv.element hl) (hfw.element hl)
      (settled_eq_of_own? (hs hp) hclass hp hf helement.ne_lengthOf h hv hw)

theorem differencesAt_of_settled (hs : c.Sound) {name lead : String} {a b : Object}
    (ha : c.Conforms name a) (hb : c.Conforms name b) (hdiscrete : a.Every Object.Discrete)
    (h : a.settled c = b.settled c) : c.differencesAt lead a b = .ok [] := by
  have ih : c.PartsSame a := fun q q' _ hq target lead hconforms hconforms' h =>
    differencesAt_of_settled hs hconforms hconforms' hq h
  obtain ⟨p, hp⟩ := ha.exists_plan
  rw [← ha.1] at hp
  refine differencesAt_eq_nil.2 ⟨ha.1.trans hb.1.symm, p, hp, fun term hterm => ?_⟩
  rcases List.mem_append.1 hterm with hterm | hterm
  · obtain ⟨target, htarget, rfl⟩ := List.mem_map.1 hterm
    obtain ⟨q, hq, hconforms⟩ := exists_parent_of_plan ha hp (Option.mem_toList.1 htarget)
    obtain ⟨q', hq', hconforms'⟩ :=
      exists_parent_of_plan hb (ha.1.trans hb.1.symm ▸ hp) (Option.mem_toList.1 htarget)
    have hparent := congrArg Object.parent h
    simp only [Object.parent_settled, hq, hq', Option.map_some, Option.some.injEq] at hparent
    simp only [termDifferences, Object.needParent_eq_ok.2 hq, Object.needParent_eq_ok.2 hq', ok_bind]
    exact ih q q' (Object.parent_height_lt hq) (hdiscrete.parent hq) target lead hconforms hconforms'
      hparent
  · obtain ⟨f, hf, rfl⟩ := List.mem_map.1 hterm
    exact fieldDifferences_of_settled hs ha hb hdiscrete ih h hp hf
termination_by a.height

end Field

theorem settled_eq_of_encode {r : Registry} (hc : c.plans = Plan.all r) (hs : c.Sound) {name : String}
    (ha : c.Conforms name a) (hb : c.Conforms name b) (hca : a.Every c.Consistent)
    (hcb : b.Every c.Consistent) {bs : Bytes} (hea : c.encode a = .ok bs) (heb : c.encode b = .ok bs) :
    a.settled c = b.settled c := by
  have hwa := onWire_settled hs ha hca hea (Nat.le_max_left a.height b.height)
  have hwb := onWire_settled hs hb hcb heb (Nat.le_max_right a.height b.height)
  have hdecode := decodes_decodeWithin hc hs (max a.height b.height) ha bs
  have hda := (hdecode _ []).2 ⟨bs, by simp, hwa⟩
  have hdb := (hdecode _ []).2 ⟨bs, by simp, hwb⟩
  rw [hda] at hdb
  exact congrArg Decoded.object hdb

/-- Objects of a class are equal exactly if they are encoded to the same bytes, and exactly if they
hold the same, whatever numbers they hold where lengths are written. It is enough that one of them
has no number that is compared in another way than bit by bit. -/
theorem equal_iff_encode_eq {source : String} {loaded : Loaded}
    (h : Schema.check source = .ok loaded) {e : Endian}
    (hc : c = Codec.ofRegistry loaded.schema.registry e) {name : String} (ha : c.Conforms name a)
    (hb : c.Conforms name b) (hca : a.Every c.Consistent) (hcb : b.Every c.Consistent)
    (hdiscrete : a.Every Object.Discrete) {bs bs' : Bytes} (hea : c.encode a = .ok bs)
    (heb : c.encode b = .ok bs') :
    (c.equal a b = .ok true ↔ bs = bs') ∧ (c.equal a b = .ok true ↔ a.settled c = b.settled c) := by
  have hs : c.Sound := hc ▸ sound_of_check h e
  have hplans : c.plans = Plan.all loaded.schema.registry := by rw [hc]; rfl
  have hbytes (hequal : c.equal a b = .ok true) : bs = bs' := by
    have hencode := encode_eq_of_differencesAt hs ha hb hdiscrete (equal_eq_true.1 hequal)
    rw [hea, heb] at hencode
    exact Except.ok.inj hencode
  have hequal (hsettled : a.settled c = b.settled c) : c.equal a b = .ok true :=
    equal_eq_true.2 (differencesAt_of_settled hs ha hb hdiscrete hsettled)
  have hsettled (heq : bs = bs') : a.settled c = b.settled c :=
    settled_eq_of_encode hplans hs ha hb hca hcb hea (heq ▸ heb)
  exact ⟨⟨hbytes, fun heq => hequal (hsettled heq)⟩, ⟨fun heq => hsettled (hbytes heq), hequal⟩⟩

theorem equal_iff_encode_eq_sample :
    (ofRegistry Registry.sample .big).encode (.sampleDerived 5 7) = .ok [1, 0, 0, 3] ∧
    (ofRegistry Registry.sample .big).encode (.sampleDerived 6 2) = .ok [1, 0, 0, 3] ∧
    (ofRegistry Registry.sample .big).equal (.sampleDerived 5 7) (.sampleDerived 6 2) = .ok true := by
  obtain ⟨loaded, hloaded, hr⟩ := Schema.check_sample
  have hencode : (ofRegistry Registry.sample .big).encode (.sampleDerived 6 2) = .ok [1, 0, 0, 3] := by
    rw [ofRegistry_sample]
    decide +kernel
  have hdiscrete : (Object.sampleDerived 5 7).Every Object.Discrete := by
    -- the sample has no floating-point numbers
    apply every_sampleDerived <;> simp [Object.Discrete, Object.sampleBase, Object.sampleDerived,
      Object.fields, Value.scalars, Value.scalar?, Scalar.Discrete, Primitive.format?]
  exact ⟨encode_sampleDerived, hencode, (equal_iff_encode_eq hloaded (by rw [hr])
    conforms_sampleDerived conforms_sampleDerived consistent_sampleDerived consistent_sampleDerived
    hdiscrete encode_sampleDerived hencode).1.2 rfl⟩

end Codec

end WireSchema
