import WireSchema.Proofs.Emit.Members

namespace WireSchema

namespace Plan

variable (p : Plan)

theorem filterMap_parents {α β : Type} (parent : Option String) {first : String → α}
    {field? : α → Option β} (h : ∀ c, field? (first c) = none) :
    (parent.toList.map first).filterMap field? = [] := by
  cases parent with
  | none => rfl
  | some c => exact List.filterMap_cons_none (h c)

theorem filterMap_initSteps : p.initSteps.filterMap InitStep.field? = p.fields := by
  have hassign : (p.assignments.map InitStep.assign).filterMap InitStep.field? = [] := by
    rw [List.filterMap_map]
    exact List.filterMap_eq_nil_iff.2 fun _ _ => rfl
  rw [initSteps, List.filterMap_append, List.filterMap_append, filterMap_parents _ fun _ => rfl,
    hassign, List.filterMap_map, List.nil_append, List.append_nil]
  exact List.filterMap_some

theorem filterMap_wireSteps : p.wireSteps.filterMap WireStep.field? = p.fields := by
  rw [wireSteps, List.filterMap_append, filterMap_parents _ fun _ => rfl, List.filterMap_map,
    List.nil_append]
  exact List.filterMap_some

theorem field?_equalityTerm (f : FieldPlan) : f.equalityTerm.field? = some f := by
  rw [FieldPlan.equalityTerm]
  split <;> rfl

theorem filterMap_equalityTerms : p.equalityTerms.filterMap EqualityTerm.field? = p.fields := by
  have hfield : EqualityTerm.field? ∘ FieldPlan.equalityTerm = some := funext field?_equalityTerm
  rw [equalityTerms, List.filterMap_append, filterMap_parents _ fun _ => rfl, List.filterMap_map,
    List.nil_append, hfield]
  exact List.filterMap_some

end Plan

namespace Code

variable {α : Type} {field? : α → Option FieldPlan} {other : String} {lines : α → String → Code}

theorem ofSteps_of_none {step : α} (h : field? step = none) (steps : List α)
    (identifiers : List String) : ofSteps field? other lines (step :: steps) identifiers =
      lines step other ++ ofSteps field? other lines steps identifiers := by
  simp only [ofSteps, h]

theorem ofSteps_of_some {step : α} {f : FieldPlan} (h : field? step = some f) (steps : List α)
    (identifier : String) (identifiers : List String) :
    ofSteps field? other lines (step :: steps) (identifier :: identifiers) =
      lines step identifier ++ ofSteps field? other lines steps identifiers := by
  simp only [ofSteps, h]

theorem ofSteps_nil {step : α} {f : FieldPlan} (h : field? step = some f) (steps : List α) :
    ofSteps field? other lines (step :: steps) [] = [] := by
  simp only [ofSteps, h]

/-- What holds for the lines of each step, and for codes one after the other, holds for all of them. -/
theorem ofSteps_induction {P : Code → Prop} (hnil : P []) (happend : ∀ {a b}, P a → P b → P (a ++ b))
    (h : ∀ step name, P (lines step name)) (steps : List α) (identifiers : List String) :
    P (ofSteps field? other lines steps identifiers) := by
  induction steps generalizing identifiers with
  | nil => exact hnil
  | cons step steps ih =>
      cases hfield : field? step with
      | none =>
          rw [ofSteps_of_none hfield]
          exact happend (h step other) (ih identifiers)
      | some f =>
          cases identifiers with
          | nil =>
              rw [ofSteps_nil hfield]
              exact hnil
          | cons identifier identifiers =>
              rw [ofSteps_of_some hfield]
              exact happend (h step identifier) (ih identifiers)

/-- A change of the steps that shows neither in their lines nor in what they are about. -/
theorem ofSteps_map {g : α → α} (hfield : ∀ step, (field? (g step)).isSome = (field? step).isSome)
    (h : ∀ step name, lines (g step) name = lines step name) (steps : List α)
    (identifiers : List String) : ofSteps field? other lines (steps.map g) identifiers =
      ofSteps field? other lines steps identifiers := by
  induction steps generalizing identifiers with
  | nil => rfl
  | cons step steps ih =>
      have hsome := hfield step
      rw [List.map_cons]
      cases hold : field? step with
      | none =>
          have hnew : field? (g step) = none := by simpa [hold] using hsome
          rw [ofSteps_of_none hnew, ofSteps_of_none hold, h, ih]
      | some f =>
          obtain ⟨f', hnew⟩ : ∃ f', field? (g step) = some f' := by
            simpa [hold, Option.isSome_iff_exists] using hsome
          cases identifiers with
          | nil => rw [ofSteps_nil hnew, ofSteps_nil hold]
          | cons identifier identifiers => rw [ofSteps_of_some hnew, ofSteps_of_some hold, h, ih]

/-- The lines for steps, where a step about a field has the name of that field, and any other step the
name `other`. -/
def stepwise {β : Type} (field? : α → Option β) (other : String) (identify : β → String)
    (lines : α → String → Code) (steps : List α) : Code :=
  steps.flatMap fun step => lines step ((field? step).elim other identify)

theorem ofSteps_map_filterMap (identify : FieldPlan → String) (steps : List α) :
    ofSteps field? other lines steps ((steps.filterMap field?).map identify) =
      stepwise field? other identify lines steps := by
  rw [stepwise]
  induction steps with
  | nil => rfl
  | cons step steps ih =>
      rw [List.flatMap_cons]
      cases hfield : field? step with
      | none => rw [List.filterMap_cons_none hfield, ofSteps_of_none hfield, ih, Option.elim_none]
      | some f =>
          rw [List.filterMap_cons_some hfield, List.map_cons, ofSteps_of_some hfield, ih,
            Option.elim_some]

end Code

namespace MemberRules

variable {rules : MemberRules} {p : Plan}

theorem ofSteps_eq_stepwise {α : Type} {field? : α → Option FieldPlan} {steps : List α}
    (h : steps.filterMap field? = p.fields) (other : String) (lines : α → String → Code) :
    Code.ofSteps field? other lines steps (rules.identifiersOf p.fields) =
      Code.stepwise field? other (fun f => rules.identifier f.name) lines steps := by
  rw [identifiersOf, ← h, Code.ofSteps_map_filterMap]

end MemberRules

end WireSchema
