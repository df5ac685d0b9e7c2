import WireSchema.Proofs.Plan.Build
import WireSchema.Proofs.Schema.Valid

namespace WireSchema

def ClassDef.Agree (pool pool' : List ClassDef) : Prop :=
  ∀ name, pool.find? (·.name == name) = pool'.find? (·.name == name)

namespace Registry

theorem agree_without {pool pool' : List ClassDef} (h : ClassDef.Agree pool pool') (name : String) :
    ClassDef.Agree (ClassDef.without name pool) (ClassDef.without name pool') := by
  intro other
  ext c
  rw [find?_without, find?_without, h other]

theorem reached_congr {pool pool' : List ClassDef} (h : ClassDef.Agree pool pool')
    (work : List String) : reached pool work = reached pool' work := by
  fun_induction reached pool work generalizing pool' with
  | case1 => rw [reached]
  | case2 pool name work hnone ih =>
      rw [reached]
      split
      next => rw [ih h]
      next c hc => rw [← h name, hnone] at hc; cases hc
  | case3 pool name work c hc ih =>
      rw [reached]
      split
      next hnone => rw [← h name, hc] at hnone; cases hnone
      next c' hc' =>
        rw [← h name, hc] at hc'
        cases hc'
        rw [ih (agree_without h name)]

variable {r r' : Registry}

theorem contains_congr (h : ClassDef.Agree r.classes r'.classes) (name : String) :
    r.contains name = r'.contains name := by
  rw [Bool.eq_iff_iff, contains_iff, contains_iff, find?, find?, h name]

section Agree

variable (h : ClassDef.Agree r.classes r'.classes)
include h

theorem parentOf?_congr (c : ClassDef) : r.parentOf? c = r'.parentOf? c := by
  rw [parentOf?, parentOf?]
  congr 1
  funext name
  exact h name

theorem lineageFrom_congr (passed : List String) (next : Option ClassDef) :
    r.lineageFrom passed next = r'.lineageFrom passed next := by
  fun_induction lineageFrom r passed next with
  | case1 => rw [lineageFrom]
  | case2 passed c hagain => rw [lineageFrom_of_mem hagain]
  | case3 passed c hnew ih => rw [lineageFrom_of_notMem hnew, ih, parentOf?_congr h]

theorem lineage_congr (c : ClassDef) : r.lineage c = r'.lineage c :=
  lineageFrom_congr h [] (some c)

theorem ancestor?_congr (depth : Nat) (c : ClassDef) : r.ancestor? depth c = r'.ancestor? depth c := by
  induction depth generalizing c with
  | zero => rfl
  | succ depth ih =>
      rw [ancestor?, ancestor?, parentOf?_congr h]
      congr 1
      funext d
      exact ih d

theorem revisited?_congr (c : ClassDef) : r.revisited? c = r'.revisited? c := by
  rw [revisited?, revisited?, lineage_congr h, ancestor?_congr h]

theorem resolve?_congr (c : ClassDef) (name : String) : r.resolve? c name = r'.resolve? c name := by
  rw [resolve?, resolve?, lineage_congr h]

theorem selfEmbedding?_congr (c : ClassDef) : r.selfEmbedding? c = r'.selfEmbedding? c := by
  have hleads : leads r.classes = leads r'.classes := by
    funext target part
    rw [leads, leads, reached_congr h]
  rw [selfEmbedding?_eq, selfEmbedding?_eq, hleads]

theorem validateClass_congr (c : ClassDef) : r.validateClass c = r'.validateClass c := by
  have hclass (name : String) : r.checkClassName name = r'.checkClassName name := by
    rw [checkClassName, checkClassName, contains_congr h]
  have helement (element : ElementType) : r.checkElement element = r'.checkElement element := by
    cases element with
    | primitive typeName => rfl
    | ofClass name => exact hclass name
  have htype (type : FieldType) : r.checkType type = r'.checkType type := by
    cases type with
    | primitive typeName default counts => rfl
    | classRef name => exact hclass name
    | fixedList element length text => exact helement element
    | variableList element countField text => exact helement element
  have hcount (position : Nat) (name : String) :
      r.checkCount c position name = r'.checkCount c position name := by
    simp only [checkCount, countField?, lineage_congr h]
  have hlist (f : Field) (position : Nat) : r.checkList c f position = r'.checkList c f position := by
    simp only [checkList, hcount]
  simp only [validateClass, checkAncestors, repeated?_name, checkField, checkInitial,
    contains_congr h, revisited?_congr h, resolve?_congr h, htype, hlist]

end Agree

end Registry

namespace Plan

variable {r r' : Registry} (h : ClassDef.Agree r.classes r'.classes)
include h

theorem knownClass_congr (c : ClassDef) (field name : String) :
    knownClass r c field name = knownClass r' c field name := by
  rw [knownClass, knownClass, Registry.contains_congr h]

theorem countSource_congr (c : ClassDef) (position : Nat) (list countField : String) :
    countSource r c position list countField = countSource r' c position list countField := by
  rw [countSource, countSource, Registry.resolve?_congr h]

theorem field_congr (c : ClassDef) (f : Field) (position : Nat) :
    field r c f position = field r' c f position := by
  simp only [field, knownClass_congr h, countSource_congr h]

theorem assignment_congr (c : ClassDef) (i : InitialValue) :
    assignment r c i = assignment r' c i := by
  rw [assignment, assignment, Registry.resolve?_congr h]

theorem build_congr (c : ClassDef) : build r c = build r' c := by
  have hassignments : c.initial.mapM (assignment r c) = c.initial.mapM (assignment r' c) := by
    rw [funext (assignment_congr h c)]
  simp only [build, knownClass_congr h, checkAncestors_eq, Registry.revisited?_congr h, field_congr h,
    checkEmbedding, Registry.selfEmbedding?_congr h, hassignments]

end Plan

end WireSchema
