import WireSchema.Emit.Backend
import WireSchema.Proofs.Emit.Lines
import WireSchema.Proofs.Emit.Rust.Functions
import WireSchema.Proofs.Outcome

namespace WireSchema

def FieldPlan.withoutComment (f : FieldPlan) : FieldPlan :=
  { f with comment := none }

def InitStep.withoutComment : InitStep → InitStep
  | .field f init => .field f.withoutComment init
  | step => step

def WireStep.withoutComment : WireStep → WireStep
  | .field f => .field f.withoutComment
  | step => step

def EqualityTerm.withoutComment : EqualityTerm → EqualityTerm
  | .value f => .value f.withoutComment
  | .elements f => .elements f.withoutComment
  | term => term

namespace Plan

def withoutComments (p : Plan) : Plan :=
  { p with comment := none, fields := p.fields.map FieldPlan.withoutComment }

def comments (p : Plan) : List String :=
  p.comment.toList ++ p.fields.filterMap (·.comment)

variable (p : Plan)

theorem initSteps_withoutComments :
    p.withoutComments.initSteps = p.initSteps.map InitStep.withoutComment := by
  simp only [initSteps, withoutComments, List.map_append, List.map_map]
  rfl

theorem wireSteps_withoutComments :
    p.withoutComments.wireSteps = p.wireSteps.map WireStep.withoutComment := by
  simp only [wireSteps, withoutComments, List.map_append, List.map_map]
  rfl

theorem equalityTerm_withoutComment (f : FieldPlan) :
    f.withoutComment.equalityTerm = f.equalityTerm.withoutComment := by
  rw [FieldPlan.equalityTerm, FieldPlan.equalityTerm, apply_ite EqualityTerm.withoutComment]
  rfl

theorem equalityTerms_withoutComments :
    p.withoutComments.equalityTerms = p.equalityTerms.map EqualityTerm.withoutComment := by
  simp only [equalityTerms, withoutComments, List.map_append, List.map_map]
  congr 1
  apply List.map_congr_left
  intro f _
  exact equalityTerm_withoutComment f

theorem sizeTerms_withoutComments : p.withoutComments.sizeTerms = p.sizeTerms := by
  simp only [sizeTerms, withoutComments, List.mapM_map]
  rfl

theorem identifierOf_withoutComments (rules : MemberRules) (names : List String) :
    rules.identifierOf p.withoutComments names = rules.identifierOf p names := by
  funext field
  rw [MemberRules.identifierOf, withoutComments, List.findIdx?_map]
  rfl

theorem flatMap_zip_withoutComments {block : FieldPlan × String → Code}
    (h : ∀ f name, block (f.withoutComment, name) = block (f, name)) (names : List String) :
    (p.withoutComments.fields.zip names).flatMap block = (p.fields.zip names).flatMap block := by
  rw [withoutComments, List.zip_map_left, List.flatMap_map]
  exact congrArg (List.flatMap · _) (funext fun x => h x.1 x.2)

end Plan

namespace Rust

open Code Text

section Same

variable (p : Plan) (names : List String)

theorem identifiers_withoutComments :
    members.identifiers p.withoutComments = members.identifiers p := by
  have hmethods (f : FieldPlan) (name : String) :
      members.fieldMethods f.withoutComment name = members.fieldMethods f name := rfl
  have hassign (identifiers methods : List String) (fs : List FieldPlan) :
      members.assignFrom p.withoutComments identifiers methods
        (fs.map FieldPlan.withoutComment) = members.assignFrom p identifiers methods fs := by
    induction fs generalizing identifiers methods with
    | nil => rfl
    | cons f fs ih =>
        simp only [List.map_cons, MemberRules.assignFrom, hmethods, ih]
        rfl
  exact hassign [] members.methods p.fields

theorem imports_withoutComments (settings : Settings) :
    imports p.withoutComments settings = imports p settings := by
  simp only [imports, referredClasses, Plan.withoutComments, List.filterMap_map]
  rfl

theorem initialisers_withoutComments (steps : List InitStep) :
    initialisers (steps.map InitStep.withoutComment) names = initialisers steps names := by
  induction steps generalizing names with
  | nil => rfl
  | cons step steps ih =>
      cases step with
      | field f init =>
          cases names with
          | nil => exact ih []
          | cons name names => exact congrArg (initBlock (.field f init) name ++ ·) (ih names)
      | parent c => exact congrArg (initBlock (.parent c) "parent" ++ ·) (ih names)
      | assign a => exact congrArg (initBlock (.assign a) "parent" ++ ·) (ih names)

theorem defaultBody_withoutComments :
    defaultBody p.withoutComments names = defaultBody p names := by
  simp only [defaultBody, p.initSteps_withoutComments, initialisers_withoutComments]
  rfl

theorem isSome_field?_withoutComment (step : WireStep) :
    step.withoutComment.field?.isSome = step.field?.isSome := by
  cases step <;> rfl

theorem marshalBody_withoutComments :
    marshalBody p.withoutComments names = marshalBody p names := by
  rw [marshalBody, p.wireSteps_withoutComments, ofSteps_map isSome_field?_withoutComment]
  · rfl
  · intro step name
    cases step <;> rfl

theorem unmarshalBody_withoutComments :
    unmarshalBody p.withoutComments names = unmarshalBody p names := by
  rw [unmarshalBody, p.wireSteps_withoutComments, ofSteps_map isSome_field?_withoutComment]
  · rfl
  · intro step name
    cases step <;> rfl

theorem sizeBody_withoutComments (terms : List SizeTerm) :
    sizeBody p.withoutComments names terms = sizeBody p names terms := by
  have hname : sizeName p.withoutComments names = sizeName p names := by
    funext term
    rw [sizeName, sizeName, p.identifierOf_withoutComments]
  rw [sizeBody, sizeBody, hname]

theorem isEmpty_equalityTerms_withoutComments :
    p.withoutComments.equalityTerms.isEmpty = p.equalityTerms.isEmpty := by
  rw [p.equalityTerms_withoutComments, List.isEmpty_map]

theorem equalityBody_withoutComments :
    equalityBody p.withoutComments names = equalityBody p names := by
  rw [equalityBody, isEmpty_equalityTerms_withoutComments, p.equalityTerms_withoutComments,
    ofSteps_map]
  · rfl
  · intro term
    cases term <;> rfl
  · intro term name
    cases term <;> rfl

theorem parameter_withoutComments (name : String) :
    parameter p.withoutComments name = parameter p name := by
  rw [parameter, p.wireSteps_withoutComments, List.isEmpty_map]
  rfl

theorem textAccessors_withoutComments :
    p.withoutComments.fields.flatMap textAccessors = p.fields.flatMap textAccessors := by
  rw [Plan.withoutComments, List.flatMap_map]
  rfl

theorem implementation_withoutComments (terms : List SizeTerm) :
    implementation p.withoutComments names terms = implementation p names terms := by
  have hinherent : inherentImpl p.withoutComments names terms = inherentImpl p names terms := by
    simp only [inherentImpl, marshal, unmarshal, marshalledSize, parameter_withoutComments,
      marshalBody_withoutComments, unmarshalBody_withoutComments, sizeBody_withoutComments,
      textAccessors_withoutComments]
    rw [p.flatMap_zip_withoutComments fun _ _ => rfl]
    rfl
  rw [implementation, defaultImpl, defaultBody_withoutComments, hinherent, equalityImpl,
    equalityBody_withoutComments, isEmpty_equalityTerms_withoutComments]
  rfl

end Same

section Spill

def spill (comment : String) : List (List Char) :=
  (lines comment.toList).tail.filter (!isDocumentation ·)

theorem codeLines_comment {indent : List Char} (hindent : ∀ c ∈ indent, c = ' ')
    (comment : String) : codeLines (indent ++ "/// ".toList ++ comment.toList) = spill comment := by
  have hbreak : ∀ c ∈ indent ++ "/// ".toList, (c == '\n') = false := by
    rw [List.forall_mem_append]
    refine ⟨?_, by simp⟩
    intro c hc
    rw [hindent c hc]
    rfl
  have hfirst (rest : List Char) : isDocumentation (indent ++ "/// ".toList ++ rest) = true := by
    rw [isDocumentation, List.append_assoc, List.dropWhile_append_of_pos]
    · rfl
    · intro c hc
      rw [hindent c hc]
      rfl
  rw [codeLines, lines, Naming.splitOnP_append hbreak, spill, lines]
  cases comment.toList.splitOnP (· == '\n') with
  | nil => rfl
  | cons first others =>
      have hdropped : ¬(!isDocumentation (indent ++ "/// ".toList ++ first)) = true := by
        rw [hfirst]
        decide
      rw [List.modifyHead_cons, List.filter_cons, if_neg hdropped, List.tail_cons]

theorem codeLines_indented_comment (level : Nat) (comment : String) :
    codeLines (indented Backend.indent level ("/// " ++ comment)) = spill comment := by
  have hindent : ∀ c ∈ (String.join (List.replicate level Backend.indent)).toList, c = ' ' := by
    rw [String.toList_join]
    intro c hc
    obtain ⟨part, hpart, hc⟩ := List.mem_flatMap.1 hc
    rw [List.eq_of_mem_replicate hpart] at hc
    revert hc
    simp [Backend.indent]
  rw [indented, if_neg (by simp), String.toList_append, ← List.append_assoc]
  exact codeLines_comment hindent comment

theorem gains_comment (text : Option String) :
    Gains Backend.indent (comment none) (comment text) (text.toList.flatMap spill).length := by
  cases text with
  | none => exact .refl _
  | some text =>
      intro level
      have hkept : keptLines Backend.indent level (comment (some text)) = spill text := by
        change codeLines (indented Backend.indent level ("/// " ++ text)) ++ [] = spill text
        rw [codeLines_indented_comment, List.append_nil]
      rw [hkept]
      exact ⟨rfl, List.nil_sublist _, by simp [comment, keptLines]⟩

def declaration (x : FieldPlan × String) : Code :=
  comment x.1.comment ++ line ("pub " ++ x.2 ++ ": " ++ fieldType x.1.layout ++ ",")

theorem gains_declarations {fs : List FieldPlan} {names : List String}
    (h : names.length = fs.length) :
    Gains Backend.indent (((fs.map FieldPlan.withoutComment).zip names).flatMap declaration)
      ((fs.zip names).flatMap declaration) ((fs.filterMap (·.comment)).flatMap spill).length := by
  induction fs generalizing names with
  | nil => exact .refl _
  | cons f fs ih =>
      obtain ⟨name, names, rfl⟩ := List.exists_cons_of_length_eq_add_one h
      have hfield := (gains_comment f.comment).append
        (.refl (line ("pub " ++ name ++ ": " ++ fieldType f.layout ++ ",")))
      have hmore : (((f :: fs).filterMap (·.comment)).flatMap spill).length =
          (f.comment.toList.flatMap spill).length + 0 +
            ((fs.filterMap (·.comment)).flatMap spill).length := by
        cases hcomment : f.comment <;> simp [hcomment]
      rw [hmore]
      exact hfield.append (ih (Nat.succ.inj h))

theorem gains_structDef {p : Plan} {names : List String} (h : names.length = p.fields.length)
    (settings : Settings) :
    Gains Backend.indent (structDef p.withoutComments names settings) (structDef p names settings)
      (p.comments.flatMap spill).length := by
  have hmore : (p.comments.flatMap spill).length = (p.comment.toList.flatMap spill).length + 0 +
      (0 + ((p.fields.filterMap (·.comment)).flatMap spill).length) := by
    rw [Plan.comments, List.flatMap_append, List.length_append, Nat.add_zero, Nat.zero_add]
  rw [hmore]
  exact ((gains_comment p.comment).append (.refl _)).append
    (((Gains.refl _).append (gains_declarations h)).block _ _)

/-- No comment reaches into the code: each stays on its line, or its other lines are documentation
too. -/
def Confined (p : Plan) : Prop :=
  ∀ comment ∈ p.comments, ∀ line ∈ (lines comment.toList).tail, isDocumentation line

theorem confined_iff (p : Plan) : Confined p ↔ (p.comments.flatMap spill).length = 0 := by
  rw [List.length_eq_zero_iff, List.flatMap_eq_nil_iff]
  simp [Confined, spill]

end Spill

section Module

variable {p q : Plan} {settings : Settings}

theorem error?_render_withoutComments :
    Outcome.error? (Backend.rust.render p.withoutComments settings) =
      Outcome.error? (Backend.rust.render p settings) := by
  simp only [Backend.rust, Outcome.error?_map, classModule, p.sizeTerms_withoutComments,
    identifiers_withoutComments]
  apply Outcome.error?_bind_congr
  intro terms
  exact (Outcome.error?_bind_ok _ _).trans (Outcome.error?_bind_ok _ _).symm

theorem length_of_identifiers {names : List String} (h : members.identifiers p = .ok names) :
    names.length = p.fields.length := by
  rw [(MemberRules.identifiers_eq_ok nodup_methods h).1, MemberRules.identifiersOf, List.length_map]

theorem render_withoutComments {text : String} (h : Backend.rust.render p settings = .ok text) :
    ∃ bare, Backend.rust.render p.withoutComments settings = .ok bare ∧
      (codeLines bare.toList = codeLines text.toList ↔ Confined p) := by
  obtain ⟨code, hcode, rfl⟩ := Outcome.map_eq_ok.1 h
  obtain ⟨bare, hbare⟩ := Outcome.error?_eq_none.1
    (error?_render_withoutComments.trans (Outcome.error?_eq_none.2 ⟨_, h⟩))
  obtain ⟨code', hcode', rfl⟩ := Outcome.map_eq_ok.1 hbare
  refine ⟨_, hbare, ?_⟩
  obtain ⟨terms, names, hterms, hnames, rfl⟩ := classModule_eq_ok hcode
  obtain ⟨terms', names', hterms', hnames', rfl⟩ := classModule_eq_ok hcode'
  obtain rfl : terms = terms' := by
    rw [p.sizeTerms_withoutComments, hterms] at hterms'
    exact Except.ok.inj hterms'
  obtain rfl : names = names' := by
    rw [identifiers_withoutComments, hnames] at hnames'
    exact Except.ok.inj hnames'
  rw [imports_withoutComments, implementation_withoutComments, confined_iff]
  have hstruct := gains_structDef (length_of_identifiers hnames) settings
  have hmodule := (((Gains.refl (notice ++ blank ++ imports p settings ++ blank)).append
    hstruct).append (.refl blank)).append (.refl (implementation p names terms))
  rw [Nat.zero_add] at hmodule
  exact hmodule.codeLines_eq_iff

/-- Comments do not change whether a class can be generated, and they change the code exactly if one
of them reaches into it. -/
theorem comments_irrelevant (h : p.withoutComments = q.withoutComments) :
    Outcome.error? (Backend.rust.render p settings) =
      Outcome.error? (Backend.rust.render q settings) ∧
    ∀ text text', Backend.rust.render p settings = .ok text →
      Backend.rust.render q settings = .ok text' → Confined p →
      (codeLines text.toList = codeLines text'.toList ↔ Confined q) := by
  refine ⟨by rw [← error?_render_withoutComments, h, error?_render_withoutComments], ?_⟩
  intro text text' htext htext' hp
  obtain ⟨bare, hbare, hconfined⟩ := render_withoutComments htext
  obtain ⟨bare', hbare', hconfined'⟩ := render_withoutComments htext'
  obtain rfl : bare = bare' := by
    rw [h, hbare'] at hbare
    exact (Except.ok.inj hbare).symm
  rw [← hconfined.2 hp]
  exact hconfined'

def sampleCommented (comment fieldComment : String) : Plan where
  name := "A"
  parent := none
  comment := some comment
  root := false
  fields := [⟨"x", some fieldComment, .scalar .byte, none, false⟩]
  assignments := []

theorem comments_irrelevant_confined : ∃ text text',
    Backend.rust.render (sampleCommented "*/ \x7d" "\r") .empty = .ok text ∧
    Backend.rust.render (sampleCommented "" "a\n /// b") .empty = .ok text' ∧
    codeLines text.toList = codeLines text'.toList := by
  obtain ⟨herror, hlines⟩ := @comments_irrelevant (sampleCommented "*/ \x7d" "\r")
    (sampleCommented "" "a\n /// b") .empty rfl
  have hok : Outcome.error? (Backend.rust.render (sampleCommented "*/ \x7d" "\r") .empty) = none := by
    decide +kernel
  obtain ⟨text, htext⟩ := Outcome.error?_eq_none.1 hok
  obtain ⟨text', htext'⟩ := Outcome.error?_eq_none.1 (herror.symm.trans hok)
  refine ⟨text, text', htext, htext', ?_⟩
  apply (hlines text text' htext htext' _).2
  · unfold Confined
    decide +kernel
  · unfold Confined
    decide +kernel

/-- The second line of a comment stands in the code. -/
theorem comments_reach_code :
    (sampleCommented "a\nb" "c").withoutComments = (sampleCommented "a" "c").withoutComments ∧
    ∃ text text', Backend.rust.render (sampleCommented "a\nb" "c") .empty = .ok text ∧
      Backend.rust.render (sampleCommented "a" "c") .empty = .ok text' ∧
      codeLines text.toList ≠ codeLines text'.toList := by
  have hbroken : Outcome.error? (Backend.rust.render (sampleCommented "a\nb" "c") .empty) = none := by
    decide +kernel
  have hwhole : Outcome.error? (Backend.rust.render (sampleCommented "a" "c") .empty) = none := by
    decide +kernel
  obtain ⟨text, htext⟩ := Outcome.error?_eq_none.1 hbroken
  obtain ⟨text', htext'⟩ := Outcome.error?_eq_none.1 hwhole
  obtain ⟨bare, hbare, hlines⟩ := render_withoutComments htext
  obtain ⟨bare', hbare', hlines'⟩ := render_withoutComments htext'
  refine ⟨rfl, text, text', htext, htext', ?_⟩
  obtain rfl : bare = bare' := Except.ok.inj (hbare.symm.trans hbare')
  have hconfined : Confined (sampleCommented "a" "c") := by
    unfold Confined
    decide +kernel
  have hspilt : ¬Confined (sampleCommented "a\nb" "c") := by
    unfold Confined
    decide +kernel
  rw [← hlines'.2 hconfined]
  exact fun heq => hspilt (hlines.1 heq.symm)

end Module

end Rust

end WireSchema
