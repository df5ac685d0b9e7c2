import WireSchema.Proofs.Plan.Counting
import WireSchema.Proofs.Wire.Bytes
import WireSchema.Proofs.Wire.Instance

namespace WireSchema

open Outcome

namespace Object

/-- The number that an object holds as the count of a list. -/
def countAt? (o : Object) (s : CountSource) : Option Nat :=
  ((o.atDepth? s.depth).bind (·.own? s.field)).bind Value.toCount?

def lengthFor? (o : Object) (l : Layout) : Option Nat :=
  l.fixedLength?.or (l.count?.bind o.countAt?)

end Object

namespace Codec

variable (c : Codec) (R : String → Object → Bytes → Prop)

def ElementOnWire (l : Layout) : Value → Bytes → Prop
  | .scalar s, bs => l.scalarType? = some s.type ∧ bs = s.toBytes c.endian
  | .object q, bs => ∃ name, l.className? = some name ∧ R name q bs
  | .list _, _ => False

def ValueOnWire (o : Object) (l : Layout) : Value → Bytes → Prop
  | .list vs, bs => l.isList ∧ o.lengthFor? l = some vs.length ∧
    ∃ parts, List.Forall₂ (c.ElementOnWire R l) vs parts ∧ bs = parts.flatten
  | v, bs => l.isList = false ∧ c.ElementOnWire R l v bs

def StepOnWire (o : Object) : WireStep → Bytes → Prop
  | .parent name, bs => ∃ q, o.parent = some q ∧ R name q bs
  | .field f, bs => ∃ v, o.own? f.name = some v ∧ c.ValueOnWire R o f.layout v bs

/-- `bs` is what is on the wire for `o`, an object of the class `name` in which objects are nested at
most `depth` deep. -/
def OnWire : Nat → String → Object → Bytes → Prop
  | 0, _, _, _ => False
  | depth + 1, name, o, bs => ∃ p parts, c.plan name = .ok p ∧ o.className = name ∧
    o.parent.isSome = p.parent.isSome ∧ o.fields.map Prod.fst = p.fields.map FieldPlan.name ∧
    List.Forall₂ (c.StepOnWire (OnWire depth) o) p.wireSteps parts ∧ bs = parts.flatten

def Sound : Prop :=
  ∀ {name p}, c.plan name = .ok p → p.Sound

variable {c R} {o : Object} {l : Layout} {v : Value} {bs : Bytes}

theorem elementOnWire_of_scalarType? {t : Primitive} (ht : l.scalarType? = some t)
    (hn : l.className? = none) : c.ElementOnWire R l v bs ↔
      ∃ s, v = .scalar s ∧ s.type = t ∧ bs = s.toBytes c.endian := by
  cases v <;> simp [ElementOnWire, ht, hn, eq_comm (a := t)]

theorem elementOnWire_of_className? {name : String} (hn : l.className? = some name)
    (ht : l.scalarType? = none) : c.ElementOnWire R l v bs ↔ ∃ q, v = .object q ∧ R name q bs := by
  cases v <;> simp [ElementOnWire, ht, hn]

theorem valueOnWire_of_not_isList (hl : l.isList = false) :
    c.ValueOnWire R o l v bs ↔ c.ElementOnWire R l v bs := by
  cases v <;> simp [ValueOnWire, ElementOnWire, hl]

theorem valueOnWire_of_scalarType? {t : Primitive} (hl : l.isList = false)
    (ht : l.scalarType? = some t) (hn : l.className? = none) : c.ValueOnWire R o l v bs ↔
      ∃ s, v = .scalar s ∧ s.type = t ∧ bs = s.toBytes c.endian :=
  (valueOnWire_of_not_isList hl).trans (elementOnWire_of_scalarType? ht hn)

theorem valueOnWire_of_className? {name : String} (hl : l.isList = false)
    (hn : l.className? = some name) (ht : l.scalarType? = none) :
    c.ValueOnWire R o l v bs ↔ ∃ q, v = .object q ∧ R name q bs :=
  (valueOnWire_of_not_isList hl).trans (elementOnWire_of_className? hn ht)

theorem valueOnWire_of_isList (hl : l.isList) : c.ValueOnWire R o l v bs ↔
    ∃ vs parts, v = .list vs ∧ o.lengthFor? l = some vs.length ∧
      List.Forall₂ (c.ElementOnWire R l) vs parts ∧ bs = parts.flatten := by
  cases v <;> simp [ValueOnWire, hl]

theorem fitsElement_of_elementOnWire (hR : ∀ name q bs, R name q bs → c.Conforms name q)
    (h : c.ElementOnWire R l v bs) : c.FitsElement l v := by
  cases v with
  | scalar s => exact fitsElement_scalar.2 h.1
  | object q =>
      obtain ⟨name, hname, hq⟩ := h
      exact fitsElement_object.2 ⟨name, hname, hR name q bs hq⟩
  | list vs => cases h

theorem fits_of_valueOnWire (hR : ∀ name q bs, R name q bs → c.Conforms name q)
    (h : c.ValueOnWire R o l v bs) : c.Fits l v := by
  cases v with
  | list vs =>
      obtain ⟨hl, hlength, parts, hvs, -⟩ := h
      refine fits_list.2 ⟨hl, ?_, ?_⟩
      · intro n hn
        simpa [Object.lengthFor?, hn, eq_comm] using hlength
      · intro v hv
        obtain ⟨part, -, hpart⟩ := exists_right_of_mem hvs hv
        exact fitsElement_of_elementOnWire hR hpart
  | scalar s => exact fits_scalar.2 ⟨h.1, h.2.1⟩
  | object q =>
      obtain ⟨hl, name, hname, hq⟩ := h
      exact fits_object.2 ⟨hl, name, hname, hR name q bs hq⟩

theorem forall₂_of_lookup {P : FieldPlan → Value → Prop} {fs : List FieldPlan}
    {es : List (String × Value)} (hnames : es.map Prod.fst = fs.map FieldPlan.name)
    (hnodup : (fs.map FieldPlan.name).Nodup)
    (h : ∀ f ∈ fs, ∃ v, es.lookup f.name = some v ∧ P f v) :
    List.Forall₂ (fun f e => e.1 = f.name ∧ P f e.2) fs es := by
  induction fs generalizing es with
  | nil =>
      cases es with
      | nil => exact .nil
      | cons e es => cases hnames
  | cons f fs ih =>
      cases es with
      | nil => cases hnames
      | cons e es =>
          obtain ⟨n, v⟩ := e
          obtain ⟨rfl, hnames'⟩ := List.cons_eq_cons.1 hnames
          obtain ⟨hf, hnodup'⟩ := List.nodup_cons.1 hnodup
          refine .cons ⟨rfl, ?_⟩ (ih hnames' hnodup' fun g hg => ?_)
          · obtain ⟨w, hw, hP⟩ := h f (by simp)
            simp only [List.lookup_cons_self, Option.some.injEq] at hw
            exact hw ▸ hP
          · obtain ⟨w, hw, hP⟩ := h g (by simp [hg])
            have hne : (g.name == f.name) = false := by
              simp only [beq_eq_false_iff_ne]
              exact fun heq => hf (heq ▸ List.mem_map_of_mem hg)
            exact ⟨w, by simpa [List.lookup_cons, hne] using hw, hP⟩

theorem mem_wireSteps_field {p : Plan} {f : FieldPlan} :
    WireStep.field f ∈ p.wireSteps ↔ f ∈ p.fields := by
  simp [Plan.wireSteps]

theorem mem_wireSteps_parent {p : Plan} {name : String} :
    WireStep.parent name ∈ p.wireSteps ↔ p.parent = some name := by
  simp [Plan.wireSteps]

theorem conforms_of_onWire (hs : c.Sound) {depth : Nat} {name : String}
    (h : c.OnWire depth name o bs) : c.Conforms name o := by
  induction depth generalizing name o bs with
  | zero => cases h
  | succ depth ih =>
      obtain ⟨p, parts, hp, rfl, hparent, hnames, hsteps, -⟩ := h
      obtain ⟨className, parent, fields⟩ := o
      refine conforms_mk.2 ⟨rfl, p, hp, ?_, ?_⟩
      · cases hname : p.parent with
        | none =>
            rw [hname] at hparent
            cases parent with
            | none => trivial
            | some q => cases hparent
        | some target =>
            obtain ⟨part, -, q, hq, hpart⟩ :=
              exists_right_of_mem hsteps (mem_wireSteps_parent.2 hname)
            cases hq
            exact ih hpart
      · apply forall₂_of_lookup hnames (hs hp).names
        intro f hf
        obtain ⟨part, -, v, hv, hpart⟩ := exists_right_of_mem hsteps (mem_wireSteps_field.2 hf)
        exact ⟨v, hv, fits_of_valueOnWire (fun _ _ _ => ih) hpart⟩

theorem length_le_of_mem {part : Bytes} {parts : List Bytes} (h : part ∈ parts) :
    part.length ≤ parts.flatten.length :=
  (List.sublist_flatten_of_mem h).length_le

theorem length_add_le {parts : List Bytes} {i j : Nat} {x y : Bytes} (hx : parts[i]? = some x)
    (hy : parts[j]? = some y) (hij : i ≠ j) : x.length + y.length ≤ parts.flatten.length := by
  induction parts generalizing i j with
  | nil => simp at hx
  | cons z zs ih =>
      rw [List.flatten_cons, List.length_append]
      cases i with
      | zero =>
          cases j with
          | zero => omega
          | succ j =>
              cases hx
              have := length_le_of_mem (List.mem_of_getElem? (by simpa using hy))
              omega
      | succ i =>
          cases j with
          | zero =>
              cases hy
              have := length_le_of_mem (List.mem_of_getElem? (by simpa using hx))
              omega
          | succ j =>
              have := ih (by simpa using hx) (by simpa using hy) (by omega)
              omega

theorem forall₂_getElem? {α β : Type} {R : α → β → Prop} {xs : List α} {ys : List β}
    (h : List.Forall₂ R xs ys) {i : Nat} {x : α} (hx : xs[i]? = some x) :
    ∃ y, ys[i]? = some y ∧ R x y := by
  obtain ⟨hi, rfl⟩ := List.getElem?_eq_some_iff.1 hx
  have hi' : i < ys.length := h.length_eq ▸ hi
  exact ⟨ys[i], List.getElem?_eq_getElem hi', h.get hi hi'⟩

theorem forall₂_imp_getElem? {α β : Type} {R S : α → β → Prop} {xs : List α} {ys : List β}
    (h : List.Forall₂ R xs ys)
    (hRS : ∀ (i : Nat) x y, xs[i]? = some x → ys[i]? = some y → R x y → S x y) :
    List.Forall₂ S xs ys := by
  induction h with
  | nil => exact .nil
  | cons hxy _ ih =>
      exact .cons (hRS 0 _ _ rfl rfl hxy) (ih fun i x y hx hy => hRS (i + 1) x y hx hy)

section Number

variable {p : Plan} {parts : List Bytes} {k : Nat} {n : String} {s : Scalar}

/-- If a number is found in an object, a step that is not for a list writes a byte: the one for the
field that holds the number, or the one for the part that it is found in. -/
theorem exists_step_of_number
    (hR : ∀ {name q bs k}, R name q bs → (q.atDepth? k).bind (·.own? n) = some (.scalar s) →
      0 < bs.length)
    (hparent : o.parent.isSome = p.parent.isSome)
    (hnames : o.fields.map Prod.fst = p.fields.map FieldPlan.name)
    (hsteps : List.Forall₂ (c.StepOnWire R o) p.wireSteps parts)
    (hn : (o.atDepth? k).bind (·.own? n) = some (.scalar s)) :
    ∃ (j : Nat) (step : WireStep) (part : Bytes), p.wireSteps[j]? = some step ∧
      parts[j]? = some part ∧ 0 < part.length ∧ ∀ f, step = .field f → f.layout.isList = false := by
  cases k with
  | zero =>
      have hown : o.own? n = some (.scalar s) := hn
      obtain ⟨f, hf, rfl⟩ : ∃ f ∈ p.fields, f.name = n := by
        obtain ⟨pre, post, hfields, -⟩ := Object.exists_of_lookup hown
        have hmem : n ∈ o.fields.map Prod.fst := by simp [hfields]
        rw [hnames] at hmem
        exact List.mem_map.1 hmem
      obtain ⟨j, hj⟩ := List.mem_iff_getElem?.1 (mem_wireSteps_field.2 hf)
      obtain ⟨part, hpart, v, hv, hwire⟩ := forall₂_getElem? hsteps hj
      rw [hown] at hv
      cases hv
      obtain ⟨hl, -, rfl⟩ := hwire
      refine ⟨j, _, _, hj, hpart, ?_, by rintro _ ⟨⟩; exact hl⟩
      rw [Scalar.length_toBytes]
      exact s.type.width_pos
  | succ k =>
      cases hq : o.parent with
      | none => simp [Object.atDepth?, hq] at hn
      | some q =>
          simp only [Object.atDepth?, hq, Option.bind_some] at hn
          obtain ⟨target, htarget⟩ : ∃ target, p.parent = some target := by
            rw [← Option.isSome_iff_exists, ← hparent, hq]
            rfl
          obtain ⟨j, hj⟩ := List.mem_iff_getElem?.1 (mem_wireSteps_parent.2 htarget)
          obtain ⟨part, hpart, q', hq', hwire⟩ := forall₂_getElem? hsteps hj
          rw [hq] at hq'
          cases hq'
          exact ⟨j, _, part, hj, hpart, hR hwire hn, by simp⟩

theorem length_pos_of_onWire {depth : Nat} {name : String} (h : c.OnWire depth name o bs)
    (hn : (o.atDepth? k).bind (·.own? n) = some (.scalar s)) : 0 < bs.length := by
  induction depth generalizing name o bs k with
  | zero => cases h
  | succ depth ih =>
      obtain ⟨p, parts, -, -, hparent, hnames, hsteps, rfl⟩ := h
      obtain ⟨j, step, part, -, hpart, hpos, -⟩ :=
        exists_step_of_number ih hparent hnames hsteps hn
      exact Nat.lt_of_lt_of_le hpos (length_le_of_mem (List.mem_of_getElem? hpart))

/-- The step that writes a variable list is not all there is: the number of its elements stands
somewhere else. -/
theorem length_lt_of_count {depth i : Nat} {f : FieldPlan} {part : Bytes} {count : CountSource}
    {m : Nat} (hparent : o.parent.isSome = p.parent.isSome)
    (hnames : o.fields.map Prod.fst = p.fields.map FieldPlan.name)
    (hsteps : List.Forall₂ (c.StepOnWire (c.OnWire depth) o) p.wireSteps parts)
    (hf : p.wireSteps[i]? = some (.field f)) (hpart : parts[i]? = some part)
    (hl : f.layout.isList) (hm : o.countAt? count = some m) : part.length < parts.flatten.length := by
  obtain ⟨v, hv, hm⟩ := Option.bind_eq_some_iff.1 hm
  obtain ⟨s, rfl, -⟩ := Value.toCount?_eq_some hm
  obtain ⟨j, step, part', hj, hpart', hpos, hstep⟩ :=
    exists_step_of_number length_pos_of_onWire hparent hnames hsteps hv
  have hij : i ≠ j := by
    rintro rfl
    rw [hf] at hj
    cases hj
    simp [hstep f rfl] at hl
  have := length_add_le hpart hpart' hij
  omega

end Number

theorem ElementOnWire.imp {R' : String → Object → Bytes → Prop}
    (hR : ∀ name q, l.className? = some name → R name q bs → R' name q bs)
    (h : c.ElementOnWire R l v bs) : c.ElementOnWire R' l v bs := by
  cases v with
  | scalar s => exact h
  | object q =>
      obtain ⟨name, hname, hq⟩ := h
      exact ⟨name, hname, hR name q hname hq⟩
  | list vs => exact h

theorem ValueOnWire.imp {R' : String → Object → Bytes → Prop}
    (hR : ∀ name q part, l.className? = some name → part.length ≤ bs.length → R name q part →
      R' name q part)
    (h : c.ValueOnWire R o l v bs) : c.ValueOnWire R' o l v bs := by
  cases v with
  | list vs =>
      obtain ⟨hl, hlength, parts, hvs, rfl⟩ := h
      refine ⟨hl, hlength, parts, forall₂_imp_getElem? hvs fun i w part _ hpart hw => ?_, rfl⟩
      have hle := length_le_of_mem (List.mem_of_getElem? hpart)
      exact hw.imp fun name q hname => hR name q part hname hle
  | scalar s => exact h
  | object q => exact ⟨h.1, ElementOnWire.imp (fun name q hname => hR name q _ hname Nat.le.refl) h.2⟩

theorem countAt?_of_isVariableList (hl : l.isVariableList) {n : Nat} (h : o.lengthFor? l = some n) :
    ∃ count, o.countAt? count = some n := by
  cases l <;> simp_all [Layout.isVariableList, Object.lengthFor?, Layout.fixedLength?, Layout.count?]
  all_goals exact ⟨_, h⟩

/-- How deeply objects are nested is bounded by the class and the number of bytes: a part that is
held by value is of a class of lower rank, and an element of a list leaves at least one byte to
others. -/
theorem onWire_of_le {r : Registry} (hc : c.plans = Plan.all r) (hs : c.Sound) {depth depth' : Nat}
    {name : String} (h : c.OnWire depth name o bs)
    (hle : r.rank name + 1 + bs.length * (r.classes.length + 1) ≤ depth') :
    c.OnWire depth' name o bs := by
  induction depth generalizing name o bs depth' with
  | zero => cases h
  | succ depth ih =>
      cases depth' with
      | zero => omega
      | succ depth' =>
          obtain ⟨p, parts, hp, rfl, hparent, hnames, hsteps, rfl⟩ := h
          obtain ⟨d, hd, hname, hb⟩ := built_of_plan hc hp
          rw [← hname] at hle
          -- a part of a class of lower rank
          have hpart {target : String} {q : Object} {part : Bytes}
              (hembeds : r.Embeds d.name target) (hq : c.OnWire depth target q part)
              (hlength : part.length ≤ parts.flatten.length) : c.OnWire depth' target q part := by
            have hrank := rank_lt_of_embeds hc hembeds (conforms_of_onWire hs hq)
            have hbytes := Nat.mul_le_mul_right (r.classes.length + 1) hlength
            exact ih hq (by omega)
          -- an element of a variable list
          have hitem {target : String} {q : Object} {part : Bytes}
              (hq : c.OnWire depth target q part)
              (hlength : part.length < parts.flatten.length) : c.OnWire depth' target q part := by
            have hrank := r.rank_le target
            have hbytes := Nat.mul_le_mul_right (r.classes.length + 1) hlength
            rw [Nat.succ_mul] at hbytes
            exact ih hq (by omega)
          refine ⟨p, parts, hp, rfl, hparent, hnames, ?_, rfl⟩
          apply forall₂_imp_getElem? hsteps
          intro i step part hi hparti hstep
          have hlength := length_le_of_mem (List.mem_of_getElem? hparti)
          have hmem := List.mem_of_getElem? hi
          cases step with
          | parent target =>
              obtain ⟨q, hq, hwire⟩ := hstep
              have htarget := hb.parent ▸ mem_wireSteps_parent.1 hmem
              exact ⟨q, hq, hpart ⟨d, Registry.find?_eq_some.2 ⟨hd, rfl⟩, .inl htarget⟩ hwire hlength⟩
          | field f =>
              obtain ⟨v, hv, hwire⟩ := hstep
              refine ⟨v, hv, hwire.imp fun target q part' hl hle' hq => ?_⟩
              cases hvar : f.layout.isVariableList with
              | false =>
                  have hembeds := embeds_of_layout hd hb (mem_wireSteps_field.1 hmem) hl hvar
                  exact hpart hembeds hq (by omega)
              | true =>
                  have hlist : f.layout.isList := by simp [Layout.isList, hvar]
                  obtain ⟨vs, -, -, hcount, -⟩ := (valueOnWire_of_isList hlist).1 hwire
                  obtain ⟨count, hcount⟩ := countAt?_of_isVariableList hvar hcount
                  have hlt := length_lt_of_count hparent hnames hsteps hi hparti hlist hcount
                  exact hitem hq (by omega)

end Codec

end WireSchema
