import Mathlib.Data.List.Perm.Basic
import WireSchema.Proofs.Emit.Members
import WireSchema.Proofs.Emit.Naming
import WireSchema.Proofs.Emit.Outline
import WireSchema.Proofs.Outcome

namespace WireSchema.Rust

open Code
open scoped List

def lengthFunctions (f : FieldPlan) (name : String) : List Heading :=
  match f.layout with
  | .lengthOf .. => [⟨"pub fn ", name, "(&self) -> usize"⟩]
  | _ => []

def textFunctions (f : FieldPlan) : List Heading :=
  if f.textElement?.isSome then
    [⟨"pub fn ", textGetter f.name, "(&self) -> String"⟩,
      ⟨"pub fn ", textSetter f.name, "(&mut self, text: &str)"⟩]
  else []

def marshalHeading (p : Plan) : Heading :=
  ⟨"pub fn ", "marshal",
    "<W: Write>(&self, " ++ parameter p "w" ++ ": &mut W) -> io::Result<()>"⟩

def unmarshalHeading (p : Plan) : Heading :=
  ⟨"pub fn ", "unmarshal",
    "<R: Read>(&mut self, " ++ parameter p "r" ++ ": &mut R) -> io::Result<()>"⟩

def sizeHeading : Heading :=
  ⟨"pub fn ", "marshalled_size", "(&self) -> usize"⟩

def defaultHeading : Heading :=
  ⟨"fn ", "default", "() -> Self"⟩

def equalityHeading (p : Plan) : Heading :=
  ⟨"fn ", "eq", "(&self, " ++ (if p.equalityTerms.isEmpty then "_other" else "other") ++
    ": &Self) -> bool"⟩

def vectorHeading : Heading :=
  ⟨"pub fn ", "marshal_to_vec", "(&self) -> io::Result<Vec<u8>>"⟩

def commonFunctions (p : Plan) : List Heading :=
  [marshalHeading p, unmarshalHeading p, sizeHeading] ++ if p.root then [vectorHeading] else []

def functions (p : Plan) (names : List String) : List Heading :=
  (p.fields.zip names).flatMap (fun x => lengthFunctions x.1 x.2) ++
    p.fields.flatMap textFunctions ++ commonFunctions p

section Written

theorem outline_lengthAccessor (f : FieldPlan) (name : String) :
    Outline (lengthAccessor f name) ((lengthFunctions f name).map Heading.text) := by
  rw [lengthAccessor, lengthFunctions]
  cases f.layout with
  | lengthOf t list =>
      exact ((outline_line _).append (outline_block (balanced_line _))).append outline_blank
  | scalar t => exact .nil
  | nested c => exact .nil
  | fixedScalars t n => exact .nil
  | fixedNested c n => exact .nil
  | scalarList t count => exact .nil
  | nestedList c count => exact .nil

theorem outline_textAccessors (f : FieldPlan) :
    Outline (textAccessors f) ((textFunctions f).map Heading.text) := by
  rw [textAccessors, textFunctions]
  cases f.textElement? with
  | none => exact .nil
  | some t =>
      exact (((((outline_line _).append (outline_block ((balanced_line _).append
        (balanced_line _)))).append outline_blank).append (outline_line _)).append
        (outline_block ((balanced_line _).append (balanced_block (balanced_line _))))).append
        outline_blank

theorem outline_marshal (p : Plan) (names : List String) :
    Outline (marshal p names) [(marshalHeading p).text] := by
  simp only [marshalHeading, Heading.text, Heading.signature, ← String.append_assoc]
  exact outline_block (balanced_marshalBody p names)

theorem outline_unmarshal (p : Plan) (names : List String) :
    Outline (unmarshal p names) [(unmarshalHeading p).text] := by
  simp only [unmarshalHeading, Heading.text, Heading.signature, ← String.append_assoc]
  exact outline_block (balanced_unmarshalBody p names)

theorem outline_marshalToVec (p : Plan) :
    Outline (marshalToVec p) ((if p.root then [vectorHeading] else []).map Heading.text) := by
  rw [marshalToVec]
  split
  · exact outline_blank.append (outline_block (((balanced_line _).append (balanced_line _)).append
      (balanced_line _)))
  · exact .nil

theorem outline_commonFunctions (p : Plan) (names : List String) (terms : List SizeTerm) :
    Outline (marshal p names ++ blank ++ unmarshal p names ++ blank ++
      marshalledSize p names terms ++ marshalToVec p) ((commonFunctions p).map Heading.text) := by
  rw [commonFunctions, List.map_append]
  apply Outline.append _ (outline_marshalToVec p)
  exact ((((outline_marshal p names).append outline_blank).append
    (outline_unmarshal p names)).append outline_blank).append
    (outline_block (balanced_sizeBody p names terms))

theorem exists_inherentImpl (p : Plan) (names : List String) (terms : List SizeTerm) :
    ∃ body, inherentImpl p names terms = braced ("impl " ++ typeName p.name) body ∧
      Outline body ((functions p names).map Heading.text) := by
  refine ⟨_, rfl, ?_⟩
  simp only [functions, List.map_append, List.map_flatMap, List.append_assoc]
  apply Outline.append
  · apply outline_flatMap
    rintro ⟨f, name⟩ -
    exact outline_lengthAccessor f name
  · apply Outline.append
    · exact outline_flatMap fun f _ => outline_textAccessors f
    · simpa only [List.append_assoc] using outline_commonFunctions p names terms

def implementation (p : Plan) (names : List String) (terms : List SizeTerm) : Code :=
  defaultImpl p names ++ blank ++ inherentImpl p names terms ++ blank ++ equalityImpl p names

/-- The functions that have a step for each field, each with its body under its heading. -/
structure Bodies (p : Plan) (names : List String) (terms : List SizeTerm) (code : Code) : Prop where
  default : braced defaultHeading.signature (defaultBody p names) <:+: code
  marshal : braced (marshalHeading p).signature (marshalBody p names) <:+: code
  unmarshal : braced (unmarshalHeading p).signature (unmarshalBody p names) <:+: code
  size : braced sizeHeading.signature (sizeBody p names terms) <:+: code
  equality : braced (equalityHeading p).signature (equalityBody p names) <:+: code

theorem marshal_eq (p : Plan) (names : List String) :
    marshal p names = braced (marshalHeading p).signature (marshalBody p names) := by
  simp only [marshalHeading, Heading.signature, ← String.append_assoc]
  rfl

theorem unmarshal_eq (p : Plan) (names : List String) :
    unmarshal p names = braced (unmarshalHeading p).signature (unmarshalBody p names) := by
  simp only [unmarshalHeading, Heading.signature, ← String.append_assoc]
  rfl

theorem equalityImpl_eq (p : Plan) (names : List String) :
    equalityImpl p names = braced ("impl PartialEq for " ++ typeName p.name)
      (braced (equalityHeading p).signature (equalityBody p names)) := by
  simp only [equalityHeading, Heading.signature, ← String.append_assoc]
  rfl

theorem infix_implementation {p : Plan} {names : List String} {terms : List SizeTerm} {code : Code}
    (part : Code) (hpart : part ∈ [defaultImpl p names, blank, inherentImpl p names terms, blank,
      equalityImpl p names])
    (h : code <:+: part) : code <:+: implementation p names terms := by
  have hinfix := h.trans (List.infix_of_mem_flatten hpart)
  simpa only [implementation, List.flatten_cons, List.flatten_nil, List.append_nil,
    List.append_assoc] using hinfix

theorem infix_inherentImpl {p : Plan} {names : List String} {terms : List SizeTerm} {code : Code}
    (h : code ∈ [(p.fields.zip names).flatMap fun x => lengthAccessor x.1 x.2,
      p.fields.flatMap textAccessors, marshal p names, blank, unmarshal p names, blank,
      marshalledSize p names terms, marshalToVec p]) :
    code <:+: inherentImpl p names terms := by
  apply infix_block
  simpa only [List.flatten_cons, List.flatten_nil, List.append_nil, List.append_assoc]
    using List.infix_of_mem_flatten h

theorem bodies_implementation (p : Plan) (names : List String) (terms : List SizeTerm) :
    Bodies p names terms (implementation p names terms) where
  default := infix_implementation (defaultImpl p names) (by simp)
    (infix_block (List.infix_refl _) _ _)
  marshal := infix_implementation (inherentImpl p names terms) (by simp)
    (infix_inherentImpl (by simp [marshal_eq]))
  unmarshal := infix_implementation (inherentImpl p names terms) (by simp)
    (infix_inherentImpl (by simp [unmarshal_eq]))
  size := infix_implementation (inherentImpl p names terms) (by simp)
    (infix_inherentImpl (by simp [marshalledSize, sizeHeading, Heading.signature]))
  equality := infix_implementation (equalityImpl p names) (by simp) (by
    rw [equalityImpl_eq]
    exact infix_block (List.infix_refl _) _ _)

theorem classModule_eq_ok {p : Plan} {settings : Settings} {code : Code}
    (h : classModule p settings = .ok code) :
    ∃ terms names, p.sizeTerms = .ok terms ∧ members.identifiers p = .ok names ∧
      code = notice ++ blank ++ imports p settings ++ blank ++ structDef p names settings ++ blank ++
        implementation p names terms := by
  obtain ⟨terms, hterms, h⟩ := Outcome.bind_eq_ok.1 h
  obtain ⟨names, hnames, h⟩ := Outcome.bind_eq_ok.1 h
  refine ⟨terms, names, hterms, hnames, ?_⟩
  cases h
  simp only [implementation, List.append_assoc]

end Written

section Names

theorem members_identifier : members.identifier = fieldName := rfl

theorem members_fieldMethods : members.fieldMethods = fieldMethods := rfl

theorem identifiersOf_eq (fs : List FieldPlan) :
    members.identifiersOf fs = fs.map fun f => fieldName f.name := by
  rw [MemberRules.identifiersOf, members_identifier]

theorem methodsOf_eq (f : FieldPlan) : members.methodsOf f =
    (lengthFunctions f (fieldName f.name)).map Heading.name ++
      (textFunctions f).map Heading.name := by
  rw [MemberRules.methodsOf, members_identifier, members_fieldMethods, fieldMethods,
    lengthFunctions, textFunctions]
  apply congrArg₂
  · cases f.layout <;> rfl
  · split <;> rfl

theorem nodup_methods : members.methods.Nodup := by decide

theorem commonFunctions_sublist (p : Plan) :
    ((commonFunctions p).map Heading.name).Sublist members.methods := by
  rw [commonFunctions, List.map_append]
  cases p.root with
  | true => exact (List.sublist_append_left _ ["default"] : ["marshal", "unmarshal",
      "marshalled_size", "marshal_to_vec"].Sublist _)
  | false => exact (List.sublist_append_left _ ["marshal_to_vec", "default"] : ["marshal",
      "unmarshal", "marshalled_size"].Sublist _)

/-- The functions stand in another order than the one in which their names are taken up. -/
theorem functions_perm (p : Plan) :
    (functions p (members.identifiersOf p.fields)).map Heading.name ~
      (commonFunctions p).map Heading.name ++ p.fields.flatMap members.methodsOf := by
  have hmethods : p.fields.flatMap members.methodsOf = p.fields.flatMap fun f =>
      (lengthFunctions f (fieldName f.name)).map Heading.name ++
        (textFunctions f).map Heading.name := by
    rw [funext methodsOf_eq]
  have hlengths : (p.fields.zip (members.identifiersOf p.fields)).flatMap
      (fun x => lengthFunctions x.1 x.2) =
        p.fields.flatMap fun f => lengthFunctions f (fieldName f.name) := by
    rw [MemberRules.flatMap_zip_identifiersOf, members_identifier]
  rw [functions, hlengths, hmethods, List.map_append, List.map_append, List.map_flatMap,
    List.map_flatMap]
  exact List.perm_append_comm.trans ((List.flatMap_append_perm _ _ _).append_left _)

theorem nodup_functions {p : Plan}
    (h : (members.methods ++ p.fields.flatMap members.methodsOf).Nodup) :
    ((functions p (members.identifiersOf p.fields)).map Heading.name).Nodup := by
  apply (functions_perm p).nodup_iff.2
  exact h.sublist ((commonFunctions_sublist p).append_right _)

theorem count_flatMap_methodsOf_le (p : Plan) (name : String) :
    (p.fields.flatMap members.methodsOf).count name ≤
      ((functions p (members.identifiersOf p.fields)).map Heading.name).count name := by
  rw [(functions_perm p).count_eq, List.count_append]
  exact Nat.le_add_left _ _

end Names

/-- Names of the fields of a struct that fit each other and the functions of the struct. -/
structure WellNamed (p : Plan) (names : List String) : Prop where
  fields : names = p.fields.map fun f => fieldName f.name
  nodup : names.Nodup
  parent : p.parent.isSome → "parent" ∉ names
  keyword : ∀ name ∈ names, name ∉ keywords
  functions : ((functions p names).map Heading.name).Nodup

/-- A name that the field `f` cannot have, or that a function for it cannot have. -/
inductive Collides (p : Plan) (f : FieldPlan) : String → Prop
  | field (twice : 2 ≤ (p.fields.map fun f => fieldName f.name).count (fieldName f.name)) :
      Collides p f (fieldName f.name)
  | parent (inherits : p.parent.isSome) (same : fieldName f.name = "parent") :
      Collides p f (fieldName f.name)
  | function {name : String} (own : name ∈ members.methodsOf f)
      (taken : 2 ≤ ((functions p (p.fields.map fun f => fieldName f.name)).map
        Heading.name).count name ∨ name ∈ members.methods) :
      Collides p f name

theorem wellNamed_of_identifiers {p : Plan} {names : List String}
    (h : members.identifiers p = .ok names) : WellNamed p names := by
  obtain ⟨rfl, hnodup, hreserved, hmethods⟩ := MemberRules.identifiers_eq_ok nodup_methods h
  refine ⟨identifiersOf_eq p.fields, hnodup, ?_, ?_, nodup_functions hmethods⟩
  · intro hparent hmem
    have hfree := hreserved "parent" hmem
    simp [members, hparent] at hfree
  · intro name hname
    rw [identifiersOf_eq] at hname
    obtain ⟨f, -, rfl⟩ := List.mem_map.1 hname
    exact escape_notMem_keywords _

theorem collides_of_identifiers {p : Plan} {e : PlanError}
    (h : members.identifiers p = .error e) :
    ∃ f ∈ p.fields, ∃ name, e = .nameCollision p.name f.name name ∧ Collides p f name := by
  obtain ⟨f, hf, name, rfl, hname⟩ := MemberRules.identifiers_eq_error h
  refine ⟨f, hf, name, rfl, ?_⟩
  have hcount := count_flatMap_methodsOf_le p name
  rw [identifiersOf_eq] at hname hcount
  rw [members_identifier] at hname
  obtain ⟨rfl, htwice | hreserved⟩ | ⟨hown, htwice | hcommon⟩ := hname
  · exact .field htwice
  · obtain ⟨hparent, hsame⟩ : p.parent.isSome ∧ fieldName f.name = "parent" := by
      simpa [members] using hreserved
    exact .parent hparent hsame
  · exact .function hown (.inl (Nat.le_trans htwice hcount))
  · exact .function hown (.inr hcommon)

/-- Names are given to the fields of a class only if they fit, and then the blocks of the struct's
own functions are opened with different names. A class is refused only for a name that collides. -/
theorem identifiers_sound (p : Plan) :
    (∀ names, members.identifiers p = .ok names →
      WellNamed p names ∧
      ∀ terms, ∃ body,
        inherentImpl p names terms = braced ("impl " ++ typeName p.name) body ∧
        Outline body ((functions p names).map Heading.text)) ∧
    ∀ e, members.identifiers p = .error e →
      ∃ f ∈ p.fields, ∃ name, e = .nameCollision p.name f.name name ∧ Collides p f name := by
  constructor
  · intro names h
    exact ⟨wellNamed_of_identifiers h, exists_inherentImpl p names⟩
  · intro e h
    exact collides_of_identifiers h

def sampleLabelled : Plan where
  name := "Labelled"
  parent := some "Base"
  comment := none
  root := true
  fields := [⟨"type", none, .lengthOf .byte "items", none, false⟩,
    ⟨"items", none, .scalarList .byte ⟨"type", "Labelled", 0, .byte⟩, none, false⟩,
    ⟨"label", none, .fixedScalars .byte 4, none, true⟩]
  assignments := []

def sampleMislabelled : Plan :=
  { sampleLabelled with
    fields := sampleLabelled.fields ++ [⟨"labelStr", none, .lengthOf .byte "items", none, false⟩] }

theorem identifiers_sound_labelled :
    WellNamed sampleLabelled ["type_", "items", "label"] ∧
      (∃ f ∈ sampleMislabelled.fields, ∃ name,
        PlanError.nameCollision "Labelled" "labelStr" "label_str" =
          .nameCollision "Labelled" f.name name ∧ Collides sampleMislabelled f name) := by
  have hok : members.identifiers sampleLabelled = .ok ["type_", "items", "label"] := by
    decide +kernel
  have herror : members.identifiers sampleMislabelled =
      .error (.nameCollision "Labelled" "labelStr" "label_str") := by
    decide +kernel
  exact ⟨((identifiers_sound sampleLabelled).1 _ hok).1,
    (identifiers_sound sampleMislabelled).2 _ herror⟩

end WireSchema.Rust
