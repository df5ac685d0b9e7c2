import Mathlib.Data.List.Nodup
import WireSchema.Emit.Members

namespace WireSchema.MemberRules

variable {rules : MemberRules} {p : Plan}

def identifiersOf (rules : MemberRules) (fs : List FieldPlan) : List String :=
  fs.map fun f => rules.identifier f.name

def methodsOf (rules : MemberRules) (f : FieldPlan) : List String :=
  rules.fieldMethods f (rules.identifier f.name)

theorem identifiersOf_cons (f : FieldPlan) (fs : List FieldPlan) :
    rules.identifiersOf (f :: fs) = rules.identifier f.name :: rules.identifiersOf fs := rfl

theorem flatMap_zip_identifiersOf {α : Type} (g : FieldPlan → String → List α)
    (fs : List FieldPlan) : (fs.zip (rules.identifiersOf fs)).flatMap (fun x => g x.1 x.2) =
      fs.flatMap fun f => g f (rules.identifier f.name) := by
  induction fs with
  | nil => rfl
  | cons f fs ih =>
      rw [identifiersOf_cons, List.zip_cons_cons, List.flatMap_cons, List.flatMap_cons, ih]

section Names

variable {used used' names : List String}

theorem nodup_append_singleton {name : String} (hused : used.Nodup) (hname : name ∉ used) :
    (used ++ [name]).Nodup :=
  hused.append (List.nodup_singleton name) (by simpa using hname)

theorem addNames_eq_ok (h : addNames used names = .ok used') :
    used' = used ++ names ∧ (used.Nodup → used'.Nodup) := by
  induction names generalizing used with
  | nil =>
      cases h
      rw [List.append_nil]
      exact ⟨rfl, id⟩
  | cons name names ih =>
      rw [addNames] at h
      split at h
      next => cases h
      next hname =>
        have hnew : name ∉ used := by simpa using hname
        obtain ⟨hused', hnodup⟩ := ih h
        refine ⟨by simpa using hused', ?_⟩
        intro hused
        exact hnodup (nodup_append_singleton hused hnew)

theorem addNames_eq_error {clash : String} (h : addNames used names = .error clash) :
    clash ∈ names ∧ 2 ≤ (used ++ names).count clash := by
  induction names generalizing used with
  | nil => cases h
  | cons name names ih =>
      rw [addNames] at h
      split at h
      next hname =>
        obtain rfl : name = clash := by simpa using h
        have hold : 0 < used.count name := List.count_pos_iff.2 (by simpa using hname)
        refine ⟨List.mem_cons_self, ?_⟩
        rw [List.count_append, List.count_cons_self]
        omega
      next =>
        obtain ⟨hmem, hcount⟩ := ih h
        exact ⟨List.mem_cons_of_mem name hmem, by simpa using hcount⟩

end Names

section Fields

variable {identifiers methods names : List String} {fs : List FieldPlan}

theorem assignFrom_eq_ok (hidentifiers : identifiers.Nodup) (hmethods : methods.Nodup)
    (h : rules.assignFrom p identifiers methods fs = .ok names) :
    names = identifiers ++ rules.identifiersOf fs ∧ names.Nodup ∧
      (∀ name ∈ rules.identifiersOf fs, rules.isReserved p name = false) ∧
      (methods ++ fs.flatMap rules.methodsOf).Nodup := by
  induction fs generalizing identifiers methods with
  | nil =>
      cases h
      simpa [identifiersOf] using ⟨hidentifiers, hmethods⟩
  | cons f fs ih =>
      simp only [assignFrom] at h
      split at h
      next => cases h
      next hfree =>
        split at h
        next => cases h
        next hadd =>
          rw [Bool.or_eq_true, not_or, Bool.not_eq_true, Bool.not_eq_true] at hfree
          obtain ⟨hnew, hreserved⟩ := hfree
          have hnew : rules.identifier f.name ∉ identifiers := by simpa using hnew
          obtain ⟨rfl, hadded⟩ := addNames_eq_ok hadd
          obtain ⟨hnames, hnodup, hothers, hall⟩ :=
            ih (nodup_append_singleton hidentifiers hnew) (hadded hmethods) h
          refine ⟨by simpa [identifiersOf_cons] using hnames, hnodup, ?_, ?_⟩
          · rw [identifiersOf_cons, List.forall_mem_cons]
            exact ⟨hreserved, hothers⟩
          · rw [List.flatMap_cons, ← List.append_assoc]
            exact hall

def Clashes (rules : MemberRules) (p : Plan) (identifiers methods : List String)
    (fs : List FieldPlan) (f : FieldPlan) (name : String) : Prop :=
  (name = rules.identifier f.name ∧
    (2 ≤ (identifiers ++ rules.identifiersOf fs).count name ∨ rules.isReserved p name = true)) ∨
  (name ∈ rules.methodsOf f ∧ 2 ≤ (methods ++ fs.flatMap rules.methodsOf).count name)

theorem assignFrom_eq_error {e : PlanError}
    (h : rules.assignFrom p identifiers methods fs = .error e) :
    ∃ f ∈ fs, ∃ name, e = .nameCollision p.name f.name name ∧
      rules.Clashes p identifiers methods fs f name := by
  induction fs generalizing identifiers methods with
  | nil => cases h
  | cons f fs ih =>
      simp only [assignFrom] at h
      split at h
      next htaken =>
        cases h
        refine ⟨f, List.mem_cons_self, _, rfl, .inl ⟨rfl, ?_⟩⟩
        rw [Bool.or_eq_true] at htaken
        apply htaken.imp_left
        intro hmem
        have hold : 0 < identifiers.count (rules.identifier f.name) :=
          List.count_pos_iff.2 (by simpa using hmem)
        rw [identifiersOf_cons, List.count_append, List.count_cons_self]
        omega
      next =>
        split at h
        next clash hclash =>
          cases h
          obtain ⟨hmem, hcount⟩ := addNames_eq_error hclash
          refine ⟨f, List.mem_cons_self, clash, rfl, .inr ⟨hmem, ?_⟩⟩
          rw [List.flatMap_cons, ← List.append_assoc, List.count_append]
          exact Nat.le_add_right_of_le hcount
        next methods' hadd =>
          obtain ⟨rfl, -⟩ := addNames_eq_ok hadd
          obtain ⟨f', hf', name, he, hclash⟩ := ih h
          refine ⟨f', List.mem_cons_of_mem f hf', name, he, ?_⟩
          rw [Clashes, List.append_assoc, List.append_assoc] at hclash
          exact hclash

end Fields

theorem identifiers_eq_ok {names : List String} (hmethods : rules.methods.Nodup)
    (h : rules.identifiers p = .ok names) :
    names = rules.identifiersOf p.fields ∧ names.Nodup ∧
      (∀ name ∈ names, rules.isReserved p name = false) ∧
      (rules.methods ++ p.fields.flatMap rules.methodsOf).Nodup := by
  obtain ⟨rfl, hnodup, hreserved, hall⟩ := assignFrom_eq_ok List.nodup_nil hmethods h
  exact ⟨rfl, hnodup, hreserved, hall⟩

theorem identifiers_eq_error {e : PlanError} (h : rules.identifiers p = .error e) :
    ∃ f ∈ p.fields, ∃ name, e = .nameCollision p.name f.name name ∧
      ((name = rules.identifier f.name ∧
        (2 ≤ (rules.identifiersOf p.fields).count name ∨ rules.isReserved p name = true)) ∨
      (name ∈ rules.methodsOf f ∧
        (2 ≤ (p.fields.flatMap rules.methodsOf).count name ∨ name ∈ rules.methods))) := by
  obtain ⟨f, hf, name, he, hclash⟩ := assignFrom_eq_error h
  refine ⟨f, hf, name, he, hclash.imp_right ?_⟩
  rintro ⟨hmem, hcount⟩
  refine ⟨hmem, ?_⟩
  by_cases hname : name ∈ rules.methods
  · exact .inr hname
  · rw [List.count_append, List.count_eq_zero.2 hname, Nat.zero_add] at hcount
    exact .inl hcount

end WireSchema.MemberRules
