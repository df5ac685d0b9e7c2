import WireSchema.Proofs.Wire.Encoding
import WireSchema.Wire.Compare

namespace WireSchema

open Outcome

namespace Object

def needObject (o : Object) (field : String) : Except CodecError Object := do
  match ← o.needOwn field with
  | .object q => .ok q
  | _ => .error (.mismatch o.className field "object")

theorem needObject_eq_ok {o q : Object} {field : String} :
    o.needObject field = .ok q ↔ o.own? field = some (.object q) := by
  rw [needObject, bind_eq_ok]
  constructor
  · rintro ⟨v, hv, h⟩
    cases v <;> simp_all [needOwn_eq_ok]
  · intro h
    exact ⟨_, needOwn_eq_ok.2 h, rfl⟩

end Object

namespace Codec

section Equation

variable (c : Codec)

def itemDifferences (position : String) : Value → Value → Except CodecError (List String)
  | .object item, .object other => c.differencesAt (position ++ ".") item other
  | x, y => .ok (if x.same y then [] else [position])

def position (path : String) (i : Nat) : String :=
  path ++ "[" ++ toString i ++ "]"

def listDifferences (path : String) (a b : Object) (f : FieldPlan) :
    Except CodecError (List String) := do
  let xs ← a.needList f.name
  let ys ← b.needList f.name
  if xs.length ≠ ys.length then
    return [path ++ ".len"]
  let items ← (xs.zip ys).zipIdx.mapM fun x => c.itemDifferences (position path x.2) x.1.1 x.1.2
  return items.flatten

def valueDifferences (path : String) (a b : Object) (f : FieldPlan) :
    Except CodecError (List String) :=
  match f.layout with
  | .lengthOf _ list => do
    let xs ← a.needList list
    let ys ← b.needList list
    return if xs.length = ys.length then [] else [path]
  | .nested _ => do c.differencesAt (path ++ ".") (← a.needObject f.name) (← b.needObject f.name)
  | _ => do
    let x ← a.needOwn f.name
    let y ← b.needOwn f.name
    return if x.same y then [] else [path]

def termDifferences (lead : String) (a b : Object) : EqualityTerm → Except CodecError (List String)
  | .parent _ => do c.differencesAt lead (← a.needParent) (← b.needParent)
  | .value f => c.valueDifferences (lead ++ f.name) a b f
  | .elements f => c.listDifferences (lead ++ f.name) a b f

theorem attach_zip_mapM {ε α β γ : Type} (g : α → β → Nat → Except ε γ) (xs : List α) (ys : List β) :
    ((xs.attach.zip ys).zipIdx.mapM fun x => g x.1.1.val x.1.2 x.2) =
      (xs.zip ys).zipIdx.mapM fun x => g x.1.1 x.1.2 x.2 := by
  have hzip : (xs.zip ys).zipIdx =
      (xs.attach.zip ys).zipIdx.map fun x => ((x.1.1.val, x.1.2), x.2) := by
    conv_lhs => rw [← List.attach_map_subtype_val xs, List.zip_map_left, List.zipIdx_map]
    rfl
  rw [hzip, List.mapM_map]
  rfl

theorem differencesAt_eq (lead : String) (a b : Object) : c.differencesAt lead a b =
    if a.className ≠ b.className then .ok [lead ++ "<class>"]
    else do
      let p ← c.plan a.className
      let found ← p.equalityTerms.mapM (c.termDifferences lead a b)
      return found.flatten := by
  rw [differencesAt]
  by_cases hclass : a.className = b.className
  case neg => simp [hclass]
  rw [if_neg (not_not.2 hclass), if_neg (not_not.2 hclass)]
  congr 1
  funext p
  congr 1
  congr 1
  funext term
  cases term with
  | parent name =>
      simp only [termDifferences, Object.needParent]
      split <;> simp_all
  | value f =>
      obtain ⟨name, comment, layout, default, text⟩ := f
      cases layout with
      | nested className =>
          simp only [termDifferences, valueDifferences, Object.needObject, Object.needOwn]
          split
          next part h =>
            simp only [h, ok_bind, bind_assoc]
            cases b.own? name with
            | none => rfl
            | some v => cases v <;> rfl
          next h => simp [h]
          next h => simp [h]
      | _ => rfl
  | elements f =>
      simp only [termDifferences, listDifferences, Object.needList, Object.needOwn]
      split
      next xs h =>
        simp only [h, ok_bind]
        congr 1
        funext ys
        rw [← attach_zip_mapM fun x y i => c.itemDifferences (position (lead ++ f.name) i) x y]
        congr 3
        funext item
        obtain ⟨⟨⟨x, -⟩, y⟩, i⟩ := item
        cases x <;> cases y <;> rfl
      next h => simp [h]
      next h => simp [h]

end Equation

theorem flatten_mapM_eq_nil {ε α β : Type} {f : α → Except ε (List β)} {xs : List α} :
    (do return (← xs.mapM f).flatten) = Except.ok [] ↔ ∀ x ∈ xs, f x = .ok [] := by
  rw [bind_eq_ok]
  constructor
  · rintro ⟨ys, hys, h⟩ x hx
    obtain ⟨y, hy, hxy⟩ := exists_right_of_mem (mapM_eq_ok.1 hys) hx
    rw [hxy, List.flatten_eq_nil_iff.1 (Except.ok.inj h) y hy]
  · intro h
    refine ⟨xs.map fun _ => [], mapM_eq_ok.2 ?_, by simp⟩
    rw [List.forall₂_map_right_iff]
    exact List.forall₂_same.2 h

variable {c : Codec} {a b : Object} {lead path : String} {f : FieldPlan}

theorem differencesAt_eq_nil : c.differencesAt lead a b = .ok [] ↔ a.className = b.className ∧
    ∃ p, c.plan a.className = .ok p ∧
      ∀ term ∈ p.equalityTerms, c.termDifferences lead a b term = .ok [] := by
  rw [differencesAt_eq]
  by_cases hclass : a.className = b.className
  · rw [if_neg (not_not.2 hclass), bind_eq_ok]
    simp only [hclass, true_and]
    exact exists_congr fun p => and_congr_right fun _ => flatten_mapM_eq_nil
  · simp [hclass]

theorem equal_eq_true : c.equal a b = .ok true ↔ c.differencesAt "" a b = .ok [] := by
  rw [equal, differences, bind_eq_ok]
  simp

theorem itemDifferences_eq_nil {x y : Value} : c.itemDifferences path x y = .ok [] ↔
    (∃ q q', x = .object q ∧ y = .object q' ∧ c.differencesAt (path ++ ".") q q' = .ok []) ∨
      ((x.object? = none ∨ y.object? = none) ∧ x.same y) := by
  cases x <;> cases y <;> simp [itemDifferences, Value.object?]

theorem listDifferences_eq_nil : c.listDifferences path a b f = .ok [] ↔
    ∃ xs ys, a.own? f.name = some (.list xs) ∧ b.own? f.name = some (.list ys) ∧
      xs.length = ys.length ∧ ∀ i x y, xs[i]? = some x → ys[i]? = some y →
        c.itemDifferences (position path i) x y = .ok [] := by
  simp only [listDifferences, bind_eq_ok, Object.needList_eq_ok]
  refine exists_congr fun xs => ?_
  rw [← exists_and_left]
  refine exists_congr fun ys => ?_
  refine and_congr_right fun _ => and_congr_right fun _ => ?_
  by_cases hlength : xs.length = ys.length
  · rw [if_neg (not_not.2 hlength), flatten_mapM_eq_nil]
    simp only [hlength, true_and]
    constructor
    · intro h i x y hx hy
      exact h ((x, y), i) (List.mem_zipIdx_iff_getElem?.2 (List.getElem?_zip_eq_some.2 ⟨hx, hy⟩))
    · rintro h ⟨⟨x, y⟩, i⟩ hmem
      obtain ⟨hx, hy⟩ := List.getElem?_zip_eq_some.1 (List.mem_zipIdx_iff_getElem?.1 hmem)
      exact h i x y hx hy
  · simp [hlength]

theorem valueDifferences_lengthOf {t : Primitive} {list : String} (hl : f.layout = .lengthOf t list) :
    c.valueDifferences path a b f = .ok [] ↔ ∃ xs ys, a.own? list = some (.list xs) ∧
      b.own? list = some (.list ys) ∧ xs.length = ys.length := by
  simp only [valueDifferences, hl, bind_eq_ok, Object.needList_eq_ok]
  simp

end Codec

end WireSchema
