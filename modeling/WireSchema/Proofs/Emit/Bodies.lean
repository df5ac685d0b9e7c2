import WireSchema.Proofs.Emit.Java.Methods
import WireSchema.Proofs.Emit.Rust.Functions
import WireSchema.Proofs.Emit.Words
import WireSchema.Proofs.Wire.OwnSize

namespace WireSchema

open Outcome

namespace Code

variable {α : Type} {field? : α → Option FieldPlan}

/-- Going through the steps and taking an identifier for each field, one comes to a field for which
none is left. -/
inductive Exhausts (field? : α → Option FieldPlan) : List α → List String → Prop
  | here {step : α} {steps : List α} (isField : (field? step).isSome) :
      Exhausts field? (step :: steps) []
  | other {step : α} {steps : List α} {names : List String} (noField : field? step = none)
      (behind : Exhausts field? steps names) : Exhausts field? (step :: steps) names
  | field {step : α} {steps : List α} {name : String} {names : List String}
      (isField : (field? step).isSome) (behind : Exhausts field? steps names) :
      Exhausts field? (step :: steps) (name :: names)

theorem length_lt_of_exhausts {steps : List α} {names : List String}
    (h : Exhausts field? steps names) : names.length < (steps.filterMap field?).length := by
  induction h with
  | here isField =>
      obtain ⟨f, hf⟩ := Option.isSome_iff_exists.1 isField
      rw [List.filterMap_cons_some hf]
      exact Nat.succ_pos _
  | other noField _ ih =>
      rw [List.filterMap_cons_none noField]
      exact ih
  | field isField _ ih =>
      obtain ⟨f, hf⟩ := Option.isSome_iff_exists.1 isField
      rw [List.filterMap_cons_some hf]
      exact Nat.succ_lt_succ ih

end Code

namespace Plan

variable {p : Plan}

theorem field?_of_sizeTerm {className : String} {f : FieldPlan} {term : SizeTerm}
    (h : f.sizeTerm className = .ok term) : term.field? = some f.name := by
  rw [FieldPlan.sizeTerm] at h
  split at h <;> cases h <;> rfl

theorem filterMap_field?_of_forall₂ {className : String} {fs : List FieldPlan}
    {own : List SizeTerm} (h : List.Forall₂ (fun f term => f.sizeTerm className = .ok term) fs own) :
    own.filterMap SizeTerm.field? = fs.map FieldPlan.name := by
  induction h with
  | nil => rfl
  | cons hterm _ ih => rw [List.filterMap_cons_some (field?_of_sizeTerm hterm), List.map_cons, ih]

theorem filterMap_sizeTerms {terms : List SizeTerm} (h : p.sizeTerms = .ok terms) :
    terms.filterMap SizeTerm.field? = p.fields.map FieldPlan.name := by
  obtain ⟨own, hown, rfl⟩ := sizeTerms_eq_ok.1 h
  rw [List.filterMap_append, filterMap_parents _ fun _ => rfl, List.nil_append,
    filterMap_field?_of_forall₂ hown]

end Plan

namespace MemberRules

variable {rules : MemberRules} {p : Plan}

/-- The identifiers of the fields of a class, for its operations: each field has its own, every
operation has one step for each field, and no identifier is missing on the way through the steps. -/
structure Assigned (rules : MemberRules) (p : Plan) (names : List String)
    (terms : List SizeTerm) : Prop where
  identifiers : names = p.fields.map fun f => rules.identifier f.name
  distinct : names.Nodup
  initSteps : p.initSteps.filterMap InitStep.field? = p.fields
  wireSteps : p.wireSteps.filterMap WireStep.field? = p.fields
  equalityTerms : p.equalityTerms.filterMap EqualityTerm.field? = p.fields
  sizeTerms : terms.filterMap SizeTerm.field? = p.fields.map FieldPlan.name
  initEnough : ¬Code.Exhausts InitStep.field? p.initSteps names
  wireEnough : ¬Code.Exhausts WireStep.field? p.wireSteps names
  equalityEnough : ¬Code.Exhausts EqualityTerm.field? p.equalityTerms names
  found : ∀ f ∈ p.fields, rules.identifierOf p names f.name = rules.identifier f.name

theorem not_exhausts {α : Type} {field? : α → Option FieldPlan} {steps : List α}
    (h : steps.filterMap field? = p.fields) :
    ¬Code.Exhausts field? steps (rules.identifiersOf p.fields) := by
  intro hexhausts
  have hlt := Code.length_lt_of_exhausts hexhausts
  rw [h, identifiersOf, List.length_map] at hlt
  exact Nat.lt_irrefl _ hlt

theorem identifierOf_eq (field : String) :
    rules.identifierOf p (rules.identifiersOf p.fields) field = rules.identifier field := by
  rw [identifierOf]
  cases hi : p.fields.findIdx? (·.name == field) with
  | none => rfl
  | some i =>
      obtain ⟨hlt, hname, -⟩ := List.findIdx?_eq_some_iff_getElem.1 hi
      rw [Option.bind_some, identifiersOf, List.getElem?_map, List.getElem?_eq_getElem hlt,
        Option.map_some, Option.getD_some, eq_of_beq hname]

theorem assigned_of_ok {names : List String} {terms : List SizeTerm}
    (hmethods : rules.methods.Nodup) (hnames : rules.identifiers p = .ok names)
    (hterms : p.sizeTerms = .ok terms) : rules.Assigned p names terms := by
  obtain ⟨rfl, hnodup, -⟩ := identifiers_eq_ok hmethods hnames
  exact {
    identifiers := rfl
    distinct := hnodup
    initSteps := p.filterMap_initSteps
    wireSteps := p.filterMap_wireSteps
    equalityTerms := p.filterMap_equalityTerms
    sizeTerms := Plan.filterMap_sizeTerms hterms
    initEnough := not_exhausts p.filterMap_initSteps
    wireEnough := not_exhausts p.filterMap_wireSteps
    equalityEnough := not_exhausts p.filterMap_equalityTerms
    found := fun f _ => identifierOf_eq f.name }

theorem flatMap_terms_eq_stepwise (other : String) (lines : SizeTerm → String → Code)
    (terms : List SizeTerm) : terms.flatMap (fun term => lines term (term.field?.elim other
        (rules.identifierOf p (rules.identifiersOf p.fields)))) =
      Code.stepwise SizeTerm.field? other rules.identifier lines terms := by
  rw [funext identifierOf_eq, Code.stepwise]

end MemberRules

namespace Rust

open Code (line braced bracedThen stepwise Mentions)

/-- The bodies of the functions of a class: they are made of blocks, and the block of a step has the
name that the step is given. -/
structure Stepwise (p : Plan) (names : List String) (terms : List SizeTerm) : Prop where
  initialisers : initialisers p.initSteps names =
    stepwise InitStep.field? "parent" (fun f => fieldName f.name) initBlock p.initSteps
  marshal : marshalBody p names =
    stepwise WireStep.field? "parent" (fun f => fieldName f.name) (marshalBlock p.name) p.wireSteps ++
      line "Ok(())"
  unmarshal : unmarshalBody p names =
    stepwise WireStep.field? "parent" (fun f => fieldName f.name) (unmarshalBlock p.name)
      p.wireSteps ++ line "Ok(())"
  size : sizeBody p names terms =
    if terms.isEmpty then line "0"
    else line "let mut size = 0;" ++
      stepwise SizeTerm.field? "parent" fieldName sizeBlock terms ++ line "size"
  equality : equalityBody p names =
    if p.equalityTerms.isEmpty then line "true"
    else line "let mut eq = true;" ++
      stepwise EqualityTerm.field? "parent" (fun f => fieldName f.name) equalityBlock
        p.equalityTerms ++ line "eq"
  default : defaultBody p names =
    if p.assignments.isEmpty then
      braced "Self"
        (stepwise InitStep.field? "parent" (fun f => fieldName f.name) initBlock p.initSteps)
    else
      bracedThen "let mut s = Self"
        (stepwise InitStep.field? "parent" (fun f => fieldName f.name) initBlock p.initSteps) ";" ++
      p.assignments.flatMap assignBlock ++ line "s"
  initNamed : ∀ step ∈ p.initSteps, (∀ a, step ≠ .assign a) →
    ∀ name, Mentions (initBlock step name) name
  assignNamed : ∀ a ∈ p.assignments, Mentions (assignBlock a) (fieldName a.field)
  marshalNamed : ∀ step ∈ p.wireSteps, ∀ name,
    Mentions (marshalBlock p.name step name) (step.source fieldName name)
  unmarshalNamed : ∀ step ∈ p.wireSteps, ∀ name, Mentions (unmarshalBlock p.name step name) name
  sizeNamed : ∀ term ∈ terms, ∀ name, Mentions (sizeBlock term name) name
  equalityNamed : ∀ term ∈ p.equalityTerms, ∀ name,
    Mentions (equalityBlock term name) (term.source fieldName name)

theorem initialisers_eq_stepwise (identify : FieldPlan → String) (steps : List InitStep) :
    initialisers steps ((steps.filterMap InitStep.field?).map identify) =
      stepwise InitStep.field? "parent" identify initBlock steps := by
  rw [stepwise]
  induction steps with
  | nil => rfl
  | cons step steps ih =>
      rw [List.flatMap_cons, ← ih]
      cases step <;> rfl

theorem initialisers_of_identifiersOf (p : Plan) :
    initialisers p.initSteps (members.identifiersOf p.fields) =
      stepwise InitStep.field? "parent" (fun f => fieldName f.name) initBlock p.initSteps := by
  rw [MemberRules.identifiersOf, ← p.filterMap_initSteps]
  exact initialisers_eq_stepwise _ p.initSteps

theorem stepwise_of_identifiersOf (p : Plan) (terms : List SizeTerm) :
    Stepwise p (members.identifiersOf p.fields) terms where
  initialisers := initialisers_of_identifiersOf p
  marshal := by rw [marshalBody, MemberRules.ofSteps_eq_stepwise p.filterMap_wireSteps,
    members_identifier]
  unmarshal := by rw [unmarshalBody, MemberRules.ofSteps_eq_stepwise p.filterMap_wireSteps,
    members_identifier]
  size := by
    simp only [sizeBody, sizeName]
    rw [MemberRules.flatMap_terms_eq_stepwise, members_identifier]
  equality := by rw [equalityBody, MemberRules.ofSteps_eq_stepwise p.filterMap_equalityTerms,
    members_identifier]
  default := by simp only [defaultBody, initialisers_of_identifiersOf]
  initNamed := fun step _ hstep name => mentions_initBlock step name hstep
  assignNamed := fun a _ => mentions_assignBlock a
  marshalNamed := fun step _ name => mentions_marshalBlock p.name step name
  unmarshalNamed := fun step _ name => mentions_unmarshalBlock p.name step name
  sizeNamed := fun term _ name => mentions_sizeBlock term name
  equalityNamed := fun term _ name => mentions_equalityBlock term name

end Rust

namespace Java

open Code (line stepwise Mentions)

/-- The declarations of the fields of a class, and the bodies of its methods. The slots of arrays are
filled in the constructor, and the assignments come behind them. -/
structure Stepwise (p : Plan) (names : List String) (terms : List SizeTerm) : Prop where
  fields : fields p names =
    stepwise InitStep.field? "super" (fun f => fieldName f.name) fieldBlock p.initSteps
  constructor : constructorBody p names =
    (p.fields.flatMap fun f => slotsBlock f (fieldName f.name)) ++
      p.initSteps.flatMap constructorBlock
  marshal : marshalBody p names =
    stepwise WireStep.field? "super" (fun f => fieldName f.name) marshalBlock p.wireSteps
  unmarshal : unmarshalBody p names =
    stepwise WireStep.field? "super" (fun f => fieldName f.name) (unmarshalBlock p.name) p.wireSteps
  size : sizeBody p names terms =
    line "int marshalSize = 0;" ++ stepwise SizeTerm.field? "super" fieldName sizeBlock terms ++
      line "return marshalSize;"
  equality : equalityBody p names =
    line "boolean ivarsEqual = true;" ++
      line ("final " ++ className p.name ++ " rhs = (" ++ className p.name ++ ") obj;") ++
      stepwise EqualityTerm.field? "super" (fun f => fieldName f.name) equalityBlock
        p.equalityTerms ++
      line "return ivarsEqual;"
  fieldNamed : ∀ f ∈ p.fields, ∀ name, Mentions (fieldBlock (.field f f.init) name) name
  slotsNamed : ∀ f ∈ p.fields, ∀ c n, f.layout = .fixedNested c n →
    ∀ name, Mentions (slotsBlock f name) name
  assignNamed : ∀ a ∈ p.assignments,
    Mentions (constructorBlock (.assign a)) (setter (fieldName a.field))
  marshalNamed : ∀ step ∈ p.wireSteps, ∀ name,
    Mentions (marshalBlock step name) (step.source fieldName name)
  unmarshalNamed : ∀ step ∈ p.wireSteps, ∀ name, Mentions (unmarshalBlock p.name step name) name
  sizeNamed : ∀ term ∈ terms, ∀ name, Mentions (sizeBlock term name) name
  equalityNamed : ∀ term ∈ p.equalityTerms, ∀ name,
    Mentions (equalityBlock term name) (term.source fieldName name)

theorem members_identifier : members.identifier = fieldName := rfl

theorem stepwise_of_identifiersOf (p : Plan) (terms : List SizeTerm) :
    Stepwise p (members.identifiersOf p.fields) terms where
  fields := by rw [Java.fields, MemberRules.ofSteps_eq_stepwise p.filterMap_initSteps,
    members_identifier]
  constructor := by
    rw [constructorBody, ← members_identifier]
    exact congrArg (· ++ _) (MemberRules.flatMap_zip_identifiersOf slotsBlock p.fields)
  marshal := by rw [marshalBody, MemberRules.ofSteps_eq_stepwise p.filterMap_wireSteps,
    members_identifier]
  unmarshal := by rw [unmarshalBody, MemberRules.ofSteps_eq_stepwise p.filterMap_wireSteps,
    members_identifier]
  size := by
    simp only [sizeBody, sizeName]
    rw [MemberRules.flatMap_terms_eq_stepwise, members_identifier]
  equality := by rw [equalityBody, MemberRules.ofSteps_eq_stepwise p.filterMap_equalityTerms,
    members_identifier]
  fieldNamed := fun f _ name => mentions_fieldBlock f f.init name
  slotsNamed := fun _ _ _ _ hlayout name => mentions_slotsBlock hlayout name
  assignNamed := fun a _ => mentions_assignBlock a
  marshalNamed := fun step _ name => mentions_marshalBlock step name
  unmarshalNamed := fun step _ name => mentions_unmarshalBlock p.name step name
  sizeNamed := fun term _ name => mentions_sizeBlock term name
  equalityNamed := fun _ hterm name => mentions_equalityBlock hterm name

end Java

/-- In both languages the body of every function stands in the text under the heading of the function,
and is made up of the blocks of its steps, in order. The block of a field is given the identifier of
that very field and has it in one of its lines. Each field is among the steps once, and the
identifiers do not run out. -/
theorem render_stepwise (p : Plan) (settings : Settings) (text : String) :
    (Backend.rust.render p settings = .ok text → ∃ names terms front,
      Rust.members.identifiers p = .ok names ∧ p.sizeTerms = .ok terms ∧
      text = Code.render Backend.indent (front ++ Rust.implementation p names terms) ∧
      Rust.Bodies p names terms (Rust.implementation p names terms) ∧
      Rust.members.Assigned p names terms ∧ Rust.Stepwise p names terms) ∧
    (Backend.java.render p settings = .ok text → ∃ names terms front,
      Java.members.identifiers p = .ok names ∧ p.sizeTerms = .ok terms ∧
      text = Code.render Backend.indent
        (front ++ Code.braced (Java.heading p) (Java.declarations p names terms)) ∧
      Java.Bodies p names terms (Java.declarations p names terms) ∧
      Java.members.Assigned p names terms ∧ Java.Stepwise p names terms) := by
  constructor
  · intro h
    obtain ⟨code, hcode, rfl⟩ := map_eq_ok.1 h
    obtain ⟨terms, names, hterms, hnames, rfl⟩ := Rust.classModule_eq_ok hcode
    refine ⟨names, terms, _, hnames, hterms, rfl, Rust.bodies_implementation p names terms,
      MemberRules.assigned_of_ok Rust.nodup_methods hnames hterms, ?_⟩
    rw [(MemberRules.identifiers_eq_ok Rust.nodup_methods hnames).1]
    exact Rust.stepwise_of_identifiersOf p terms
  · intro h
    obtain ⟨code, hcode, rfl⟩ := map_eq_ok.1 h
    obtain ⟨terms, names, hterms, hnames, rfl⟩ := Java.classUnit_eq_preamble_append hcode
    refine ⟨names, terms, _, hnames, hterms, rfl, Java.bodies_declarations p names terms,
      MemberRules.assigned_of_ok List.nodup_nil hnames hterms, ?_⟩
    rw [(MemberRules.identifiers_eq_ok List.nodup_nil hnames).1]
    exact Java.stepwise_of_identifiersOf p terms

def Plan.sampleStepped : Plan where
  name := "Stepped"
  parent := some "Base"
  comment := none
  root := false
  fields := [⟨"n", none, .lengthOf .byte "type", none, false⟩,
    ⟨"type", none, .nestedList "Item" ⟨"n", "Stepped", 0, .byte⟩, none, false⟩,
    ⟨"xCount", none, .scalar .short, some (.int 7), false⟩]
  assignments := [⟨"kind", "Base", 1, .byte, .int 3⟩]

theorem render_stepwise_stepped :
    (∃ text, Backend.rust.render Plan.sampleStepped .empty = .ok text ∧
      Rust.members.identifiers Plan.sampleStepped = .ok ["n", "type_", "x_count"] ∧
      Rust.initialisers Plan.sampleStepped.initSteps ["n", "type_", "x_count"] =
        ["parent: Base::default(),", "n: 0,", "type_: Vec::new(),", "x_count: 7,"].flatMap
          Code.line ∧
      Code.Mentions (Rust.marshalBlock "Stepped"
        (.field ⟨"n", none, .lengthOf .byte "type", none, false⟩) "n") "type_") ∧
    (∃ text, Backend.java.render Plan.sampleStepped .empty = .ok text ∧
      Java.members.identifiers Plan.sampleStepped = .ok ["n", "type", "xCount"] ∧
      Java.marshalBody Plan.sampleStepped ["n", "type", "xCount"] =
        Code.line "super.marshal(dos);" ++ Code.line "dos.writeByte(type.size());" ++
          Java.overElements "Item" "type" (Code.line "x.marshal(dos);") ++
          Code.line "dos.writeShort(xCount);") := by
  have hrust : error? (Backend.rust.render Plan.sampleStepped .empty) = none := by decide +kernel
  have hjava : error? (Backend.java.render Plan.sampleStepped .empty) = none := by decide +kernel
  have hrustNames : Rust.members.identifiers Plan.sampleStepped =
      .ok ["n", "type_", "x_count"] := by decide +kernel
  have hjavaNames : Java.members.identifiers Plan.sampleStepped =
      .ok ["n", "type", "xCount"] := by decide +kernel
  obtain ⟨text, htext⟩ := error?_eq_none.1 hrust
  obtain ⟨text', htext'⟩ := error?_eq_none.1 hjava
  constructor
  · obtain ⟨names, terms, -, hnames, -, -, -, -, hbodies⟩ := (render_stepwise _ _ text).1 htext
    obtain rfl := Except.ok.inj (hnames.symm.trans hrustNames)
    refine ⟨text, htext, hrustNames, ?_, ?_⟩
    · rw [hbodies.initialisers]
      decide +kernel
    · exact hbodies.marshalNamed (.field ⟨"n", none, .lengthOf .byte "type", none, false⟩)
        (by decide +kernel) "n"
  · obtain ⟨names, terms, -, hnames, -, -, -, -, hbodies⟩ := (render_stepwise _ _ text').2 htext'
    obtain rfl := Except.ok.inj (hnames.symm.trans hjavaNames)
    refine ⟨text', htext', hjavaNames, ?_⟩
    rw [hbodies.marshal]
    decide +kernel

end WireSchema
