import Mathlib.Data.List.Zip
import WireSchema.Proofs.Wire.Equality
import WireSchema.Proofs.Wire.Inheritance

namespace WireSchema

open Outcome

namespace Scalar

def isNaN (s : Scalar) : Bool :=
  s.type.format?.any (·.isNaN s.word.toNat)

def isFloatZero (s : Scalar) : Bool :=
  s.type.format?.any (·.isZero s.word.toNat)

theorem same_iff {a b : Scalar} : a.same b ↔ a.isNaN = false ∧ b.isNaN = false ∧
    (a = b ∨ a.type = b.type ∧ a.isFloatZero ∧ b.isFloatZero) := by
  obtain ⟨t, word⟩ := a
  obtain ⟨t', word'⟩ := b
  rw [same]
  cases hf : t.format? with
  | none =>
      simp only [isNaN, isFloatZero, hf, Option.any_none, beq_iff_eq]
      constructor
      · rintro h
        cases h
        simp [hf]
      · rintro ⟨-, -, h | ⟨-, h, -⟩⟩
        · exact h
        · cases h
  | some f =>
      by_cases ht : t = t'
      · subst ht
        simp [isNaN, isFloatZero, hf, BinaryFormat.sameNumber, BitVec.toNat_inj, and_assoc]
      · simp [ht]

theorem same_self {s : Scalar} : s.same s ↔ s.isNaN = false := by
  simp [same_iff]

theorem same_symm {a b : Scalar} (h : a.same b) : b.same a := by
  obtain ⟨ha, hb, h⟩ := same_iff.1 h
  refine same_iff.2 ⟨hb, ha, ?_⟩
  rcases h with rfl | ⟨htype, hza, hzb⟩
  · exact .inl rfl
  · exact .inr ⟨htype.symm, hzb, hza⟩

theorem same_comm (a b : Scalar) : a.same b = b.same a :=
  Bool.eq_iff_iff.2 ⟨same_symm, same_symm⟩

theorem same_trans {a b d : Scalar} (hab : a.same b) (hbd : b.same d) : a.same d := by
  obtain ⟨ha, -, hab⟩ := same_iff.1 hab
  obtain ⟨-, hd, hbd⟩ := same_iff.1 hbd
  refine same_iff.2 ⟨ha, hd, ?_⟩
  rcases hab with rfl | ⟨htype, hza, hzb⟩
  · exact hbd
  · rcases hbd with rfl | ⟨htype', -, hzd⟩
    · exact .inr ⟨htype, hza, hzb⟩
    · exact .inr ⟨htype.trans htype', hza, hzd⟩

theorem isNaN_of_isFloat {s : Scalar} (h : s.type.isFloat = false) : s.isNaN = false := by
  rw [Primitive.isFloat, Option.isSome_eq_false_iff, Option.isNone_iff_eq_none] at h
  rw [isNaN, h]
  rfl

end Scalar

def Object.NaNFree (o : Object) : Prop :=
  ∀ e ∈ o.fields, ∀ s ∈ e.2.scalars, s.isNaN = false

def Value.NaNFree (v : Value) : Prop :=
  (∀ s ∈ v.scalars, s.isNaN = false) ∧ ∀ q ∈ v.parts, q.Every Object.NaNFree

theorem Object.every_nanFree_iff {o : Object} : o.Every NaNFree ↔
    (∀ q, o.parent = some q → q.Every NaNFree) ∧ ∀ e ∈ o.fields, e.2.NaNFree := by
  constructor
  · intro h
    exact ⟨fun q => h.parent, fun e he => ⟨h.here e he, fun q => h.field he⟩⟩
  · rintro ⟨hparent, hfields⟩
    refine .intro (fun e he => (hfields e he).1) fun q hq => ?_
    rcases mem_parts.1 hq with hq | ⟨e, he, hq⟩
    · exact hparent q hq
    · exact (hfields e he).2 q hq

namespace Plan

/-- How the term of a field compares two objects: as the items of the lists in the field, as the
lengths of the lists that the field counts, or as the scalars or objects in the field. -/
inductive Compares (p : Plan) (f : FieldPlan) : EqualityTerm → Prop
  | items (isList : f.layout.isList) : Compares p f (.elements f)
  | length {list : FieldPlan} {t : Primitive} {s : CountSource}
      (layout : f.layout = .lengthOf t list.name) (member : list ∈ p.fields)
      (count : list.layout.count? = some s) (here : s.depth = 0) (field : s.field = f.name) :
      Compares p f (.value f)
  | element (layout : f.layout.IsElement) (notList : f.layout.isList = false) :
      Compares p f (.value f)

variable {p : Plan}

theorem Sound.compares (hs : p.Sound) {f : FieldPlan} (hf : f ∈ p.fields) :
    p.Compares f f.equalityTerm := by
  rw [FieldPlan.equalityTerm]
  rcases f.layout.isList_or_isElement with hl | ⟨hl, ⟨t, list, hlayout⟩ | helement⟩
  · rw [if_pos hl]
    exact .items hl
  · rw [if_neg (by simp [hl])]
    obtain ⟨g, hg, rfl, s, hcount, hdepth, hfield⟩ := hs.counts hf hlayout
    exact .length hlayout hg hcount hdepth hfield
  · rw [if_neg (by simp [hl])]
    exact .element helement hl

theorem forall_mem_equalityTerms {P : EqualityTerm → Prop} : (∀ term ∈ p.equalityTerms, P term) ↔
    (∀ target, p.parent = some target → P (.parent target)) ∧ ∀ f ∈ p.fields, P f.equalityTerm := by
  simp [equalityTerms, or_imp, forall_and]

end Plan

namespace Codec

variable {c : Codec} {name lead path : String} {p : Plan} {f : FieldPlan} {a b d : Object}

theorem exists_items (ho : c.Conforms name a) (hp : c.plan name = .ok p) (hs : p.Sound)
    (hf : f ∈ p.fields) (hl : f.layout.isList) :
    ∃ xs, a.own? f.name = some (.list xs) ∧ ∀ x ∈ xs, c.FitsElement f.layout x := by
  obtain ⟨v, hv, hfits⟩ := exists_own? ho hp hs hf
  obtain ⟨xs, rfl, -, hxs⟩ := hfits.exists_list hl
  exact ⟨xs, hv, hxs⟩

theorem exists_element (ho : c.Conforms name a) (hp : c.plan name = .ok p) (hs : p.Sound)
    (hf : f ∈ p.fields) (hl : f.layout.isList = false) :
    ∃ x, a.own? f.name = some x ∧ c.FitsElement f.layout x := by
  obtain ⟨v, hv, hfits⟩ := exists_own? ho hp hs hf
  exact ⟨v, hv, hfits.element hl⟩

theorem fitsElement_scalars_or_objects (c : Codec) (l : Layout) :
    (∀ x, c.FitsElement l x → ∃ s, x = .scalar s) ∨
      ∃ target, ∀ x, c.FitsElement l x → ∃ q, x = .object q ∧ c.Conforms target q := by
  cases htarget : l.className? with
  | none => exact .inl fun x hx => hx.exists_scalar htarget
  | some target =>
      have hscalar : l.scalarType? = none := by
        cases l <;> first | rfl | cases htarget
      refine .inr ⟨target, fun x hx => ?_⟩
      obtain ⟨q, target', rfl, htarget', hq⟩ := hx.exists_object hscalar
      obtain rfl : target = target' := Option.some.inj (htarget.symm.trans htarget')
      exact ⟨q, rfl, hq⟩

theorem termDifferences_parent {q q' : Object} (hq : a.parent = some q) (hq' : b.parent = some q')
    (target : String) :
    c.termDifferences lead a b (.parent target) = c.differencesAt lead q q' := by
  simp only [termDifferences, Object.needParent_eq_ok.2 hq, Object.needParent_eq_ok.2 hq', ok_bind]

def FindSame (x y : Except CodecError (List String)) : Prop :=
  ∃ paths, x = .ok paths ∧ y = .ok paths

theorem FindSame.eq {x y : Except CodecError (List String)} (h : FindSame x y) : x = y := by
  obtain ⟨paths, rfl, rfl⟩ := h
  rfl

theorem findSame_flatten {α : Type} {g g' : α → Except CodecError (List String)} {xs : List α}
    (h : ∀ x ∈ xs, FindSame (g x) (g' x)) :
    FindSame (do return (← xs.mapM g).flatten) (do return (← xs.mapM g').flatten) := by
  obtain ⟨found, hfound⟩ : ∃ found, xs.mapM g = .ok found := exists_mapM_eq_ok fun x hx => by
    obtain ⟨paths, hpaths, -⟩ := h x hx
    exact ⟨paths, hpaths⟩
  rw [← mapM_congr fun x hx => (h x hx).eq, hfound]
  exact ⟨_, rfl, rfl⟩

theorem zip_mapM_comm {ε α β γ : Type} (g : β × α × Nat → Except ε γ) (xs : List α) (ys : List β) :
    ((ys.zip xs).zipIdx.mapM fun x => g (x.1.1, x.1.2, x.2)) =
      (xs.zip ys).zipIdx.mapM fun x => g (x.1.2, x.1.1, x.2) := by
  rw [← List.zip_swap, List.zipIdx_map, List.mapM_map]
  rfl

def PartsFindSame (c : Codec) (a : Object) : Prop :=
  ∀ q q' : Object, q.height < a.height → ∀ target lead, c.Conforms target q → c.Conforms target q' →
    FindSame (c.differencesAt lead q q') (c.differencesAt lead q' q)

theorem itemDifferences_comm {l : Layout} {x y : Value} (ih : c.PartsFindSame a)
    (hheight : x.height < a.height) (hx : c.FitsElement l x) (hy : c.FitsElement l y) :
    FindSame (c.itemDifferences path x y) (c.itemDifferences path y x) := by
  rcases c.fitsElement_scalars_or_objects l with hl | ⟨target, hl⟩
  · obtain ⟨s, rfl⟩ := hl x hx
    obtain ⟨t, rfl⟩ := hl y hy
    exact ⟨_, rfl, by simp only [itemDifferences, Value.same, Scalar.same_comm]⟩
  · obtain ⟨q, rfl, hq⟩ := hl x hx
    obtain ⟨q', rfl, hq'⟩ := hl y hy
    exact ih q q' hheight target _ hq hq'

theorem listDifferences_comm {xs ys : List Value} (ih : c.PartsFindSame a)
    (hxs : a.own? f.name = some (.list xs)) (hys : b.own? f.name = some (.list ys))
    (hfx : ∀ x ∈ xs, c.FitsElement f.layout x) (hfy : ∀ y ∈ ys, c.FitsElement f.layout y) :
    FindSame (c.listDifferences path a b f) (c.listDifferences path b a f) := by
  simp only [listDifferences, Object.needList_eq_ok.2 hxs, Object.needList_eq_ok.2 hys, ok_bind]
  by_cases hlength : xs.length = ys.length
  · rw [if_neg (not_not.2 hlength), if_neg (not_not.2 hlength.symm),
      zip_mapM_comm (fun x => c.itemDifferences (position path x.2.2) x.1 x.2.1) xs ys]
    apply findSame_flatten
    rintro ⟨⟨x, y⟩, i⟩ hmem
    obtain ⟨hx, hy⟩ := List.of_mem_zip (List.fst_mem_of_mem_zipIdx hmem)
    exact itemDifferences_comm ih (Object.item_height_lt hxs hx) (hfx x hx) (hfy y hy)
  · rw [if_pos hlength, if_pos (Ne.symm hlength)]
    exact ⟨_, rfl, rfl⟩

theorem fieldDifferences_comm (hs : p.Sound) (ha : c.Conforms name a) (hb : c.Conforms name b)
    (ih : c.PartsFindSame a) (hp : c.plan name = .ok p) (hf : f ∈ p.fields) :
    FindSame (c.termDifferences lead a b f.equalityTerm)
      (c.termDifferences lead b a f.equalityTerm) := by
  generalize hterm : f.equalityTerm = term
  cases hterm ▸ hs.compares hf with
  | items hl =>
      obtain ⟨xs, hxs, hfx⟩ := exists_items ha hp hs hf hl
      obtain ⟨ys, hys, hfy⟩ := exists_items hb hp hs hf hl
      exact listDifferences_comm ih hxs hys hfx hfy
  | length hlayout hlist hcount =>
      have hl := isList_of_count? hcount
      obtain ⟨xs, hxs, -⟩ := exists_items ha hp hs hlist hl
      obtain ⟨ys, hys, -⟩ := exists_items hb hp hs hlist hl
      simp only [termDifferences, valueDifferences, hlayout, Object.needList_eq_ok.2 hxs,
        Object.needList_eq_ok.2 hys, ok_bind, eq_comm (a := ys.length)]
      exact ⟨_, rfl, rfl⟩
  | element hl hnot =>
      obtain ⟨x, hx, hfx⟩ := exists_element ha hp hs hf hnot
      obtain ⟨y, hy, hfy⟩ := exists_element hb hp hs hf hnot
      simp only [termDifferences]
      rw [valueDifferences_element hl hx hy hfx hfy, valueDifferences_element hl hy hx hfy hfx]
      exact itemDifferences_comm ih (Object.own_height_lt hx) hfx hfy

theorem differencesAt_comm (hs : c.Sound) {name lead : String} {a b : Object}
    (ha : c.Conforms name a) (hb : c.Conforms name b) :
    FindSame (c.differencesAt lead a b) (c.differencesAt lead b a) := by
  have ih : c.PartsFindSame a := fun q q' _ target lead hq hq' => differencesAt_comm hs hq hq'
  obtain ⟨p, hp⟩ := ha.exists_plan
  rw [differencesAt_eq, differencesAt_eq, ha.1, hb.1, if_neg (not_not.2 rfl),
    if_neg (not_not.2 rfl), hp, ok_bind, ok_bind]
  apply findSame_flatten
  refine Plan.forall_mem_equalityTerms.2 ⟨fun target htarget => ?_, fun f hf => ?_⟩
  · obtain ⟨q, hq, hconforms⟩ := exists_parent_of_plan ha (ha.1 ▸ hp) htarget
    obtain ⟨q', hq', hconforms'⟩ := exists_parent_of_plan hb (hb.1 ▸ hp) htarget
    rw [termDifferences_parent hq hq', termDifferences_parent hq' hq]
    exact ih q q' (Object.parent_height_lt hq) target lead hconforms hconforms'
  · exact fieldDifferences_comm (hs hp) ha hb ih hp hf
termination_by a.height

theorem nanFree_list {l : Layout} {xs : List Value} (hxs : ∀ x ∈ xs, c.FitsElement l x) :
    (Value.list xs).NaNFree ↔ ∀ x ∈ xs, x.NaNFree := by
  simp only [Value.NaNFree, Value.scalars, Value.parts, List.mem_filterMap]
  constructor
  · rintro ⟨hscalars, hparts⟩ x hx
    cases x with
    | list ys => cases (hxs _ hx).1
    | scalar s => simpa [Value.scalars, Value.parts] using hscalars s ⟨_, hx, rfl⟩
    | object q => simpa [Value.scalars, Value.parts] using hparts q ⟨_, hx, rfl⟩
  · intro h
    constructor
    · rintro s ⟨x, hx, hs⟩
      cases x with
      | scalar s' => exact (h _ hx).1 s (by simpa [Value.scalars, Value.scalar?, eq_comm] using hs)
      | _ => cases hs
    · rintro q ⟨x, hx, hq⟩
      cases x with
      | object q' => exact (h _ hx).2 q (by simpa [Value.parts, Value.object?, eq_comm] using hq)
      | _ => cases hq

theorem forall_fields_iff (ha : c.Conforms name a) (hp : c.plan name = .ok p) (hs : p.Sound)
    {P : Value → Prop} :
    (∀ e ∈ a.fields, P e.2) ↔ ∀ f ∈ p.fields, ∀ v, a.own? f.name = some v → P v := by
  constructor
  · intro h f _ v hv
    obtain ⟨pre, post, hfields, -⟩ := Object.exists_of_lookup hv
    exact h (f.name, v) (by simp [hfields])
  · intro h e he
    obtain ⟨className, parent, fields⟩ := a
    obtain ⟨-, p', hp', -, hfields⟩ := conforms_mk.1 ha
    rw [hp] at hp'
    cases hp'
    have hnodup : (fields.map Prod.fst).Nodup := by
      rw [map_name_of_forall₂ hfields]
      exact hs.names
    obtain ⟨f, hf, hname, -⟩ := exists_left_of_mem hfields he
    exact h f hf e.2 (hname ▸ Object.lookup_of_mem hnodup he)

def PartsSelf (c : Codec) (a : Object) : Prop :=
  ∀ q : Object, q.height < a.height → ∀ target lead, c.Conforms target q →
    (c.differencesAt lead q q = .ok [] ↔ q.Every Object.NaNFree)

theorem itemDifferences_self {l : Layout} {x : Value} (ih : c.PartsSelf a)
    (hheight : x.height < a.height) (hx : c.FitsElement l x) :
    c.itemDifferences path x x = .ok [] ↔ x.NaNFree := by
  rcases c.fitsElement_scalars_or_objects l with hl | ⟨target, hl⟩
  · obtain ⟨s, rfl⟩ := hl x hx
    simp [itemDifferences, Value.same, Value.NaNFree, Value.scalars, Value.parts, Scalar.same_self]
  · obtain ⟨q, rfl, hq⟩ := hl x hx
    simpa [itemDifferences, Value.NaNFree, Value.scalars, Value.parts] using ih q hheight target _ hq

theorem listDifferences_self {xs : List Value} (ih : c.PartsSelf a)
    (hxs : a.own? f.name = some (.list xs)) (hfx : ∀ x ∈ xs, c.FitsElement f.layout x) :
    c.listDifferences path a a f = .ok [] ↔ (Value.list xs).NaNFree := by
  have hitem (path : String) {x : Value} (hx : x ∈ xs) :
      c.itemDifferences path x x = .ok [] ↔ x.NaNFree :=
    itemDifferences_self ih (Object.item_height_lt hxs hx) (hfx x hx)
  rw [listDifferences_eq_nil, nanFree_list hfx]
  constructor
  · rintro ⟨ys, zs, hys, hzs, -, h⟩ x hx
    obtain rfl : xs = ys := by simpa [hxs] using hys
    obtain rfl : xs = zs := by simpa [hxs] using hzs
    obtain ⟨i, hi⟩ := List.mem_iff_getElem?.1 hx
    exact (hitem _ hx).1 (h i x x hi hi)
  · intro h
    refine ⟨xs, xs, hxs, hxs, rfl, fun i x y hx hy => ?_⟩
    obtain rfl : x = y := Option.some.inj (hx.symm.trans hy)
    have hmem := List.mem_of_getElem? hx
    exact (hitem _ hmem).2 (h x hmem)

theorem fieldDifferences_self {r : Registry} (hc : c.plans = Plan.all r) (hs : p.Sound)
    (ha : c.Conforms name a) (ih : c.PartsSelf a) (hp : c.plan name = .ok p) (hf : f ∈ p.fields)
    {v : Value} (hv : a.own? f.name = some v) :
    c.termDifferences lead a a f.equalityTerm = .ok [] ↔ v.NaNFree := by
  generalize hterm : f.equalityTerm = term
  cases hterm ▸ hs.compares hf with
  | items hl =>
      obtain ⟨xs, hxs, hfx⟩ := exists_items ha hp hs hf hl
      obtain rfl : v = .list xs := Option.some.inj (hv.symm.trans hxs)
      exact listDifferences_self ih hxs hfx
  | length hlayout hlist hcount hdepth hfield =>
      -- the field itself is not looked at, but it holds an integer
      obtain ⟨xs, hxs, -⟩ := exists_items ha hp hs hlist (isList_of_count? hcount)
      obtain ⟨⟨q, s, hq, -, hscalar, htype⟩, hinteger⟩ := hasScalar_of_count hc hp hlist hcount ha
      rw [hdepth] at hq
      cases hq
      rw [hfield, hv] at hscalar
      cases hscalar
      have hfree : (Value.scalar s).NaNFree := by
        simpa [Value.NaNFree, Value.scalars, Value.parts] using
          Scalar.isNaN_of_isFloat (htype ▸ hinteger)
      exact iff_of_true ((valueDifferences_lengthOf hlayout).2 ⟨xs, xs, hxs, hxs, rfl⟩) hfree
  | element hl hnot =>
      obtain ⟨x, hx, hfx⟩ := exists_element ha hp hs hf hnot
      obtain rfl : v = x := Option.some.inj (hv.symm.trans hx)
      rw [termDifferences, valueDifferences_element hl hx hx hfx hfx]
      exact itemDifferences_self ih (Object.own_height_lt hx) hfx

theorem differencesAt_self {r : Registry} (hc : c.plans = Plan.all r) (hs : c.Sound)
    {name lead : String} {a : Object} (ha : c.Conforms name a) :
    c.differencesAt lead a a = .ok [] ↔ a.Every Object.NaNFree := by
  have ih : c.PartsSelf a := fun q _ target lead hq => differencesAt_self hc hs hq
  obtain ⟨p, hp⟩ := ha.exists_plan
  have hplan : c.plan a.className = .ok p := ha.1 ▸ hp
  have hterms : c.differencesAt lead a a = .ok [] ↔
      ∀ term ∈ p.equalityTerms, c.termDifferences lead a a term = .ok [] := by
    rw [differencesAt_eq_nil]
    simp [hplan]
  rw [hterms, Plan.forall_mem_equalityTerms, Object.every_nanFree_iff,
    forall_fields_iff ha hp (hs hp)]
  refine and_congr ⟨fun h q hq => ?_, fun h target htarget => ?_⟩
    ⟨fun h f hf v hv => ?_, fun h f hf => ?_⟩
  · obtain ⟨p', hp', hparent, -⟩ := ha.2.here
    obtain rfl : p = p' := Except.ok.inj (hplan.symm.trans hp')
    rw [hq, Option.map_some] at hparent
    have hterm := h q.className hparent.symm
    rw [termDifferences_parent hq hq] at hterm
    exact (ih q (Object.parent_height_lt hq) q.className lead ⟨rfl, ha.2.parent hq⟩).1 hterm
  · obtain ⟨q, hq, hconforms⟩ := exists_parent_of_plan ha hplan htarget
    rw [termDifferences_parent hq hq]
    exact (ih q (Object.parent_height_lt hq) target lead hconforms).2 (h q hq)
  · exact (fieldDifferences_self hc (hs hp) ha ih hp hf hv).1 (h f hf)
  · obtain ⟨v, hv, -⟩ := exists_own? ha hp (hs hp) hf
    exact (fieldDifferences_self hc (hs hp) ha ih hp hf hv).2 (h f hf v hv)
termination_by a.height

def PartsTrans (c : Codec) (a : Object) : Prop :=
  ∀ q q' q'' : Object, q.height < a.height → ∀ target lead, c.Conforms target q →
    c.Conforms target q' → c.Conforms target q'' → c.differencesAt lead q q' = .ok [] →
      c.differencesAt lead q' q'' = .ok [] → c.differencesAt lead q q'' = .ok []

theorem itemDifferences_trans {l : Layout} {x y z : Value} (ih : c.PartsTrans a)
    (hheight : x.height < a.height) (hx : c.FitsElement l x) (hy : c.FitsElement l y)
    (hz : c.FitsElement l z) (hxy : c.itemDifferences path x y = .ok [])
    (hyz : c.itemDifferences path y z = .ok []) : c.itemDifferences path x z = .ok [] := by
  rcases c.fitsElement_scalars_or_objects l with hl | ⟨target, hl⟩
  · obtain ⟨s, rfl⟩ := hl x hx
    obtain ⟨t, rfl⟩ := hl y hy
    obtain ⟨u, rfl⟩ := hl z hz
    have hst : s.same t := by simpa [itemDifferences, Value.same] using hxy
    have htu : t.same u := by simpa [itemDifferences, Value.same] using hyz
    simp [itemDifferences, Value.same, Scalar.same_trans hst htu]
  · obtain ⟨q, rfl, hq⟩ := hl x hx
    obtain ⟨q', rfl, hq'⟩ := hl y hy
    obtain ⟨q'', rfl, hq''⟩ := hl z hz
    exact ih q q' q'' hheight target _ hq hq' hq'' hxy hyz

theorem listDifferences_trans (ih : c.PartsTrans a) {xs ys zs : List Value}
    (hxs : a.own? f.name = some (.list xs)) (hys : b.own? f.name = some (.list ys))
    (hzs : d.own? f.name = some (.list zs)) (hfx : ∀ x ∈ xs, c.FitsElement f.layout x)
    (hfy : ∀ y ∈ ys, c.FitsElement f.layout y) (hfz : ∀ z ∈ zs, c.FitsElement f.layout z)
    (hab : c.listDifferences path a b f = .ok []) (hbd : c.listDifferences path b d f = .ok []) :
    c.listDifferences path a d f = .ok [] := by
  obtain ⟨xs', ys', hxs', hys', hxy, hitems⟩ := listDifferences_eq_nil.1 hab
  obtain ⟨ys'', zs', hys'', hzs', hyz, hitems'⟩ := listDifferences_eq_nil.1 hbd
  obtain rfl : xs = xs' := by simpa [hxs] using hxs'
  obtain rfl : ys = ys' := by simpa [hys] using hys'
  obtain rfl : ys = ys'' := by simpa [hys] using hys''
  obtain rfl : zs = zs' := by simpa [hzs] using hzs'
  refine listDifferences_eq_nil.2 ⟨xs, zs, hxs, hzs, hxy.trans hyz, fun i x z hx hz => ?_⟩
  have hi : i < ys.length := hyz ▸ (List.getElem?_eq_some_iff.1 hz).1
  have hy : ys[i]? = some ys[i] := List.getElem?_eq_getElem hi
  have hxmem := List.mem_of_getElem? hx
  exact itemDifferences_trans ih (Object.item_height_lt hxs hxmem) (hfx x hxmem)
    (hfy _ (List.mem_of_getElem? hy)) (hfz z (List.mem_of_getElem? hz)) (hitems i x _ hx hy)
    (hitems' i _ z hy hz)

theorem fieldDifferences_trans (hs : p.Sound) (ha : c.Conforms name a) (hb : c.Conforms name b)
    (hd : c.Conforms name d) (ih : c.PartsTrans a) (hp : c.plan name = .ok p) (hf : f ∈ p.fields)
    (hab : c.termDifferences lead a b f.equalityTerm = .ok [])
    (hbd : c.termDifferences lead b d f.equalityTerm = .ok []) :
    c.termDifferences lead a d f.equalityTerm = .ok [] := by
  generalize hterm : f.equalityTerm = term at hab hbd
  cases hterm ▸ hs.compares hf with
  | items hl =>
      obtain ⟨xs, hxs, hfx⟩ := exists_items ha hp hs hf hl
      obtain ⟨ys, hys, hfy⟩ := exists_items hb hp hs hf hl
      obtain ⟨zs, hzs, hfz⟩ := exists_items hd hp hs hf hl
      exact listDifferences_trans ih hxs hys hzs hfx hfy hfz hab hbd
  | length hlayout =>
      obtain ⟨xs, ys, hxs, hys, hxy⟩ := (valueDifferences_lengthOf hlayout).1 hab
      obtain ⟨ys', zs, hys', hzs, hyz⟩ := (valueDifferences_lengthOf hlayout).1 hbd
      obtain rfl : ys = ys' := by simpa [hys] using hys'
      exact (valueDifferences_lengthOf hlayout).2 ⟨xs, zs, hxs, hzs, hxy.trans hyz⟩
  | element hl hnot =>
      obtain ⟨x, hx, hfx⟩ := exists_element ha hp hs hf hnot
      obtain ⟨y, hy, hfy⟩ := exists_element hb hp hs hf hnot
      obtain ⟨z, hz, hfz⟩ := exists_element hd hp hs hf hnot
      rw [termDifferences, valueDifferences_element hl hx hy hfx hfy] at hab
      rw [termDifferences, valueDifferences_element hl hy hz hfy hfz] at hbd
      rw [termDifferences, valueDifferences_element hl hx hz hfx hfz]
      exact itemDifferences_trans ih (Object.own_height_lt hx) hfx hfy hfz hab hbd

theorem differencesAt_trans (hs : c.Sound) {name lead : String} {a b d : Object}
    (ha : c.Conforms name a) (hb : c.Conforms name b) (hd : c.Conforms name d)
    (hab : c.differencesAt lead a b = .ok []) (hbd : c.differencesAt lead b d = .ok []) :
    c.differencesAt lead a d = .ok [] := by
  have ih : c.PartsTrans a := fun q q' q'' _ target lead hq hq' hq'' h h' =>
    differencesAt_trans hs hq hq' hq'' h h'
  obtain ⟨-, p, hp, hterms⟩ := differencesAt_eq_nil.1 hab
  obtain ⟨-, p', hp', hterms'⟩ := differencesAt_eq_nil.1 hbd
  have hplan : c.plan name = .ok p := ha.1 ▸ hp
  obtain rfl : p = p' := by
    rw [hb.1, hplan] at hp'
    exact Except.ok.inj hp'
  refine differencesAt_eq_nil.2 ⟨ha.1.trans hd.1.symm, p, hp, ?_⟩
  rw [Plan.forall_mem_equalityTerms] at hterms hterms' ⊢
  constructor
  · intro target htarget
    obtain ⟨q, hq, hconforms⟩ := exists_parent_of_plan ha hp htarget
    obtain ⟨q', hq', hconforms'⟩ := exists_parent_of_plan hb hp' htarget
    obtain ⟨q'', hq'', hconforms''⟩ := exists_parent_of_plan hd (hd.1 ▸ hplan) htarget
    have h := hterms.1 target htarget
    have h' := hterms'.1 target htarget
    rw [termDifferences_parent hq hq'] at h
    rw [termDifferences_parent hq' hq''] at h'
    rw [termDifferences_parent hq hq'']
    exact ih q q' q'' (Object.parent_height_lt hq) target lead hconforms hconforms' hconforms'' h h'
  · intro f hf
    exact fieldDifferences_trans (hs hplan) ha hb hd ih hplan hf (hterms.2 f hf) (hterms'.2 f hf)
termination_by a.height

/-- On the objects of a class the comparison does not fail, it finds the same differences in both
directions, an object has no differences to itself exactly if all that it holds are numbers, and
equality is carried on. Scalars are compared bit by bit, but for what is not a number and for the
two zeros. -/
theorem differences_partialEquivalence {source : String} {loaded : Loaded}
    (h : Schema.check source = .ok loaded) {e : Endian}
    (hc : c = Codec.ofRegistry loaded.schema.registry e) {name : String} (ha : c.Conforms name a)
    (hb : c.Conforms name b) (hd : c.Conforms name d) :
    (∃ paths, c.differences a b = .ok paths ∧ c.differences b a = .ok paths) ∧
      (c.differences a a = .ok [] ↔ a.Every Object.NaNFree) ∧
      (c.equal a b = .ok true → c.equal b d = .ok true → c.equal a d = .ok true) ∧
      ∀ s t : Scalar, s.same t ↔ s.isNaN = false ∧ t.isNaN = false ∧
        (s = t ∨ s.type = t.type ∧ s.isFloatZero ∧ t.isFloatZero) := by
  have hs : c.Sound := hc ▸ sound_of_check h e
  have hplans : c.plans = Plan.all loaded.schema.registry := by rw [hc]; rfl
  refine ⟨differencesAt_comm hs ha hb, differencesAt_self hplans hs ha, fun hab hbd => ?_,
    fun s t => Scalar.same_iff⟩
  rw [equal_eq_true] at hab hbd ⊢
  exact differencesAt_trans hs ha hb hd hab hbd

end Codec

def Schema.sampleFloat : String :=
  "<s><class name='F'><attribute name='x'><primitive type='float'/></attribute></class></s>"

def Registry.sampleFloat : Registry where
  classes := [{ name := "F", fields := [⟨"x", none, .primitive "float" none none⟩] }]
  nodup := by decide

def Plan.sampleFloat : Plan where
  name := "F"
  parent := none
  comment := none
  root := false
  fields := [⟨"x", none, .scalar .float, none, false⟩]
  assignments := []

def Object.sampleFloat (word : BitVec 32) : Object :=
  .mk "F" none [("x", .scalar ⟨.float, word⟩)]

theorem Schema.check_sampleFloat : ∃ loaded, Schema.check Schema.sampleFloat = .ok loaded ∧
    loaded.schema.registry = Registry.sampleFloat := by
  apply Schema.exists_of_classes
  have hchars : Schema.sampleFloat = String.ofList _ := rfl
  have hcheck (source : String) (h : source = Schema.sampleFloat) :
      (Schema.check source).toOption.map (·.schema.registry.classes) =
        some Registry.sampleFloat.classes := by
    unfold Schema.check Schema.read Markup.walk Markup.parse?
    rw [h, hchars, String.toList_ofList]
    decide +kernel
  exact hcheck _ rfl

namespace Codec

theorem ofRegistry_sampleFloat (e : Endian) :
    ofRegistry Registry.sampleFloat e = ⟨[("F", .ok Plan.sampleFloat)], e⟩ := by
  have hbuild : Plan.build Registry.sampleFloat
      { name := "F", fields := [⟨"x", none, .primitive "float" none none⟩] } =
        .ok Plan.sampleFloat := by
    decide +kernel
  rw [← hbuild]
  rfl

theorem conforms_sampleFloat {e : Endian} (word : BitVec 32) :
    (ofRegistry Registry.sampleFloat e).Conforms "F" (.sampleFloat word) := by
  rw [ofRegistry_sampleFloat, Object.sampleFloat, conforms_mk]
  exact ⟨rfl, Plan.sampleFloat, rfl, trivial, .cons ⟨rfl, fits_scalar.2 ⟨rfl, rfl⟩⟩ .nil⟩

theorem differences_partialEquivalence_float :
    (ofRegistry Registry.sampleFloat .big).equal (.sampleFloat 0) (.sampleFloat 0x80000000) =
      .ok true ∧
    (ofRegistry Registry.sampleFloat .big).equal (.sampleFloat 0) (.sampleFloat 0) = .ok true ∧
    (ofRegistry Registry.sampleFloat .big).differences (.sampleFloat 0x7fc00000)
      (.sampleFloat 0x7fc00000) ≠ .ok [] := by
  obtain ⟨loaded, hloaded, hr⟩ := Schema.check_sampleFloat
  have hzeros : (ofRegistry Registry.sampleFloat .big).equal (.sampleFloat 0)
      (.sampleFloat 0x80000000) = .ok true := by
    rw [ofRegistry_sampleFloat]
    decide +kernel
  have hzeros' : (ofRegistry Registry.sampleFloat .big).equal (.sampleFloat 0x80000000)
      (.sampleFloat 0) = .ok true := by
    rw [ofRegistry_sampleFloat]
    decide +kernel
  refine ⟨hzeros, ?_, fun h => ?_⟩
  · exact (differences_partialEquivalence hloaded (by rw [hr]) (conforms_sampleFloat 0)
      (conforms_sampleFloat 0x80000000) (conforms_sampleFloat 0)).2.2.1 hzeros hzeros'
  · have hfree := (differences_partialEquivalence hloaded (by rw [hr])
      (conforms_sampleFloat 0x7fc00000) (conforms_sampleFloat 0) (conforms_sampleFloat 0)).2.1.1 h
    have hnan := hfree.here ("x", .scalar ⟨.float, 0x7fc00000⟩) (List.mem_singleton.2 rfl) _
      (List.mem_singleton.2 rfl)
    exact absurd hnan (by decide)

end Codec

end WireSchema
