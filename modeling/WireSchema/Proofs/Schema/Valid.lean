import Mathlib.Data.List.Nodup
import WireSchema.Proofs.Schema.Lineage
import WireSchema.Schema.Validation

namespace WireSchema

theorem literalProblem?_eq_none {text : String} {t : Primitive} :
    literalProblem? text t = none ↔ (Literal.readAs? t text).isSome := by
  unfold literalProblem? Literal.readAs?
  cases Literal.read? text with
  | none => simp
  | some l => by_cases h : l.fits t <;> simp [h]

/-- What the checks of the class `c` establish. -/
structure ClassDef.Valid (r : Registry) (c : ClassDef) : Prop where
  known : ∀ name, c.parent? = some name → r.contains name
  ancestors : r.revisited? c = none
  names : (c.fields.map Field.name).Nodup
  types : ∀ f ∈ c.fields, r.checkType f.type = []
  lists : ∀ i f, c.fields[i]? = some f → r.checkList c f i = []
  initial : ∀ i ∈ c.initial, r.checkInitial c i = []

namespace Registry

variable {r : Registry} {c : ClassDef}

theorem repeated?_eq (r : Registry) (passed : List String) (next : Option ClassDef) :
    r.repeated? passed next = next.bind (r.ancestor? (r.lineageFrom passed next).length) := by
  fun_induction repeated? r passed next with
  | case1 => rfl
  | case2 passed c hagain => rw [lineageFrom_of_mem hagain]; rfl
  | case3 passed c hnew ih => rw [lineageFrom_of_notMem hnew]; exact ih

theorem repeated?_name (r : Registry) (c : ClassDef) :
    r.repeated? [c.name] (r.parentOf? c) = r.revisited? c := by
  rw [repeated?_eq, revisited?, lineage, lineageFrom_of_notMem List.not_mem_nil]
  rfl

theorem revisited?_of_parentOf?_none (h : r.parentOf? c = none) : r.revisited? c = none := by
  rw [← repeated?_name, h, repeated?]

theorem checkAncestors_eq_nil : r.checkAncestors c = [] ↔
    (∀ name, c.parent? = some name → r.contains name) ∧ r.revisited? c = none := by
  rw [checkAncestors, repeated?_name]
  cases hp : c.parent? with
  | none =>
      have hparent : r.parentOf? c = none := by rw [parentOf?, hp, Option.bind_none]
      simp [revisited?_of_parentOf?_none hparent]
  | some p =>
      by_cases hknown : r.contains p
      · cases r.revisited? c <;> simp [hknown]
      · simp [hknown]

theorem nodup_names_iff : (c.fields.map Field.name).Nodup ↔
    ∀ i f, c.fields[i]? = some f → (c.fields.take i).any (·.name == f.name) = false := by
  rw [List.Nodup, List.pairwise_map, List.pairwise_iff_getElem]
  constructor
  · intro h i f hf
    obtain ⟨hi, rfl⟩ := List.getElem?_eq_some_iff.1 hf
    rw [List.any_eq_false]
    intro g hg
    obtain ⟨j, hj, rfl⟩ := List.mem_take_iff_getElem.1 hg
    simpa using h j i (by omega) hi (by omega)
  · intro h i j hi hj hij hname
    have := List.any_eq_false.1 (h j _ (List.getElem?_eq_getElem hj)) c.fields[i]
      (List.mem_take_iff_getElem.2 ⟨i, by omega, rfl⟩)
    exact this (by simpa using hname)

theorem forall_mem_zipIdx {α : Type} {P : α × Nat → Prop} {xs : List α} :
    (∀ x ∈ xs.zipIdx, P x) ↔ ∀ i x, xs[i]? = some x → P (x, i) := by
  simp only [Prod.forall, List.mem_zipIdx_iff_getElem?]
  exact ⟨fun h i x => h x i, fun h x i => h i x⟩

theorem validateClass_eq_nil : r.validateClass c = [] ↔ c.Valid r := by
  have hfields : (∀ i f, c.fields[i]? = some f → r.checkField c f i = []) ↔
      (c.fields.map Field.name).Nodup ∧ ∀ f ∈ c.fields, r.checkType f.type = [] := by
    simp only [checkField, List.append_eq_nil_iff, ite_eq_right_iff, List.cons_ne_nil, imp_false,
      Bool.not_eq_true, nodup_names_iff, List.mem_iff_getElem?]
    exact ⟨fun h => ⟨fun i f hf => (h i f hf).1, fun f ⟨i, hf⟩ => (h i f hf).2⟩,
      fun h i f hf => ⟨h.1 i f hf, h.2 f ⟨i, hf⟩⟩⟩
  simp only [validateClass, List.append_eq_nil_iff, List.flatMap_eq_nil_iff, List.map_eq_nil_iff,
    checkAncestors_eq_nil]
  rw [forall_mem_zipIdx, forall_mem_zipIdx, hfields]
  exact ⟨fun ⟨⟨⟨⟨h₁, h₂⟩, h₃, h₄⟩, h₅⟩, h₆⟩ => ⟨h₁, h₂, h₃, h₄, h₅, h₆⟩,
    fun h => ⟨⟨⟨⟨h.known, h.ancestors⟩, h.names, h.types⟩, h.lists⟩, h.initial⟩⟩

theorem validate_eq_nil : r.validate = [] ↔ ∀ c ∈ r.classes, c.Valid r := by
  simp [validate, List.flatMap_eq_nil_iff, validateClass_eq_nil]

/-- The two ways to look for a count field come to the same one. -/
theorem countField?_eq (r : Registry) (c : ClassDef) (n : String) :
    r.countField? c n = (r.resolve? c n).map fun found =>
      (found.field, if found.depth = 0 then c.fieldIndex? n else none) := by
  cases hf : c.field? n with
  | some f =>
      obtain ⟨i, hi, -⟩ := ClassDef.fieldIndex?_of_field? hf
      simp [countField?, hf, hi, resolve?_of_field? hf]
  | none =>
      obtain ⟨rest, hrest⟩ := r.lineage_eq_cons c
      have h (cs : List ClassDef) (k : Nat) : (cs.findSome? (·.field? n)).map (·, none) =
          ((cs.zipIdx (k + 1)).findSome? fun x =>
            (x.1.field? n).map fun field => (⟨x.1, field, x.2⟩ : Resolved)).map fun found =>
              (found.field, if found.depth = 0 then c.fieldIndex? n else none) := by
        induction cs generalizing k with
        | nil => rfl
        | cons d cs ih =>
            rw [List.findSome?_cons, List.zipIdx_cons, List.findSome?_cons]
            cases hd : d.field? n with
            | some f => simp
            | none => simpa using ih (k + 1)
      simpa [countField?, resolve?, hf, hrest, List.zipIdx_cons] using h rest 0

theorem checkCount_eq_nil {position : Nat} {n : String} : r.checkCount c position n = [] ↔
    ∃ found t, r.resolve? c n = some found ∧
      ¬(found.depth = 0 ∧ (c.fieldIndex? n).any (position < ·)) ∧ found.field.integer? = some t ∧
      ∀ k, found.depth = 0 → found.field.counts? = some k → k = position := by
  rw [checkCount]
  rw [countField?_eq]
  cases hfound : r.resolve? c n with
  | none => simp
  | some found =>
      by_cases hd : found.depth = 0
      · obtain ⟨i, hi, -⟩ := ClassDef.fieldIndex?_of_field? (field?_of_resolve? hfound hd)
        by_cases hafter : position < i
        · simp [hd, hi, hafter]
        · cases hint : found.field.integer? <;> cases hk : found.field.counts? <;>
            simp [hd, hi, hafter, hint, hk]
      · cases hint : found.field.integer? <;> simp [hd, hint]

theorem checkInitial_eq_nil {i : InitialValue} : r.checkInitial c i = [] ↔
    ∃ found typeName, r.resolve? c i.field = some found ∧
      found.field.typeName? = some typeName ∧
      ∀ t, Primitive.ofName? typeName = some t → (Literal.readAs? t i.value).isSome := by
  rw [checkInitial]
  cases r.resolve? c i.field with
  | none => simp
  | some found =>
      cases htype : found.field.typeName? with
      | none => simp [htype]
      | some typeName => cases ht : Primitive.ofName? typeName <;> simp [htype, ht, literalProblem?_eq_none]

theorem warning_notMem_checkElement (n : String) (element : ElementType) :
    .countNotEarlier n ∉ r.checkElement element := by
  cases element with
  | primitive typeName =>
      simp only [checkElement, checkPrimitiveName]
      split <;> simp
  | ofClass name =>
      simp only [checkElement, checkClassName]
      split <;> simp

theorem warning_notMem_checkType (n : String) (type : FieldType) :
    .countNotEarlier n ∉ r.checkType type := by
  cases type with
  | primitive typeName default counts =>
      simp only [checkType]
      split <;> simp [Option.bind_eq_some_iff]
  | classRef name => exact warning_notMem_checkElement n (.ofClass name)
  | fixedList element length text => exact warning_notMem_checkElement n element
  | variableList element countField text => exact warning_notMem_checkElement n element

theorem warning_notMem_checkList (n : String) (f : Field) (position : Nat) :
    .countNotEarlier n ∉ r.checkList c f position := by
  rw [checkList]
  split
  next element length text _ => cases element <;> split <;> simp
  next =>
    rw [checkCount]
    repeat' split
    all_goals simp
  next => simp

theorem warning_notMem_checkInitial (n : String) (i : InitialValue) :
    .countNotEarlier n ∉ r.checkInitial c i := by
  rw [checkInitial]
  repeat' split
  all_goals simp [Option.bind_eq_some_iff]

theorem warning_notMem_checkAncestors (n : String) : .countNotEarlier n ∉ r.checkAncestors c := by
  rw [checkAncestors]
  repeat' split
  all_goals simp

theorem isError_of_mem_validate {d : Diagnostic} (h : d ∈ r.validate) : d.isError := by
  obtain ⟨className, field, finding⟩ := d
  cases finding with
  | countNotEarlier n =>
      simp [validate, validateClass, checkField, warning_notMem_checkAncestors,
        warning_notMem_checkList, warning_notMem_checkInitial, warning_notMem_checkType] at h
  | _ => rfl

end Registry

end WireSchema
