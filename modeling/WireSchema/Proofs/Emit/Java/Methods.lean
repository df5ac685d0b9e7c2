import WireSchema.Proofs.Emit.Members
import WireSchema.Proofs.Emit.Naming
import WireSchema.Proofs.Emit.Outline
import WireSchema.Proofs.Outcome

namespace WireSchema.Java

open Code

def fieldAccessors (f : FieldPlan) (name : String) : List Heading :=
  [⟨"public " ++ fieldType f.layout ++ " ", getter name, "()"⟩,
    ⟨"public void ", setter name, "(" ++ fieldType f.layout ++ " value)"⟩] ++
  if f.textElement?.isSome then
    [⟨"public String ", textGetter name, "()"⟩,
      ⟨"public void ", textSetter name, "(String value)"⟩]
  else []

def accessorMethods (p : Plan) (names : List String) : List Heading :=
  (p.fields.zip names).flatMap fun x => fieldAccessors x.1 x.2

def constructorHeading (p : Plan) : Heading :=
  ⟨"public ", className p.name, "()"⟩

def sizeMethod : Heading :=
  ⟨"public int ", "getMarshalledSize", "()"⟩

def marshalMethod : Heading :=
  ⟨"public void ", "marshal", "(DataOutputStream dos) throws IOException"⟩

def arrayMethods (p : Plan) : List Heading :=
  if p.root then [⟨"public byte[] ", "marshal", "() throws IOException"⟩] else []

def unmarshalMethod : Heading :=
  ⟨"public void ", "unmarshal", "(DataInputStream dis) throws IOException"⟩

def equalityMethod : Heading :=
  ⟨"public boolean ", "equalsImpl", "(Object obj)"⟩

def equalityMethods : List Heading :=
  [⟨"public boolean ", "equals", "(Object obj)"⟩, equalityMethod]

def objectMethods (p : Plan) : List Heading :=
  [marshalMethod] ++ arrayMethods p ++ [unmarshalMethod] ++ equalityMethods

def commonMethods (p : Plan) : List Heading :=
  sizeMethod :: objectMethods p

def methods (p : Plan) (names : List String) : List Heading :=
  constructorHeading p :: sizeMethod :: accessorMethods p names ++ objectMethods p

section Written

theorem outline_fieldBlock (step : InitStep) (name : String) :
    Outline (fieldBlock step name) [] := by
  cases step with
  | parent c => exact .nil
  | assign a => exact .nil
  | field f init =>
      rw [fieldBlock]
      cases f.comment with
      | none => exact (outline_line _).append outline_blank
      | some text => exact ((outline_line _).append (outline_line _)).append outline_blank

theorem outline_fields (p : Plan) (names : List String) : Outline (fields p names) [] :=
  ofSteps_induction (P := fun code => Outline code []) .nil (fun ha hb => ha.append hb)
    outline_fieldBlock p.initSteps names

theorem outline_textAccessors (t : Primitive) (name : String) :
    Outline (textAccessors t name)
      [Heading.text ⟨"public String ", textGetter name, "()"⟩,
        Heading.text ⟨"public void ", textSetter name, "(String value)"⟩] := by
  have hread (a b c d e f g : String) : Balanced (line a ++ braced b (line c) ++ line d ++
      braced e (line f) ++ line g) :=
    ((((balanced_line a).append (balanced_block (balanced_line c))).append (balanced_line d)).append
      (balanced_block (balanced_line f))).append (balanced_line g)
  have hwrite (a b c : String) : Balanced (line a ++ overPositions b (line c)) :=
    (balanced_line a).append (balanced_block (balanced_line c))
  exact (((outline_block (hread _ _ _ _ _ _ _)).append outline_blank).append
    (outline_block (hwrite _ _ _))).append outline_blank

theorem outline_accessors (f : FieldPlan) (name : String) :
    Outline (accessors f name) ((fieldAccessors f name).map Heading.text) := by
  rw [accessors, fieldAccessors, List.map_append]
  apply Outline.append
  · simp only [List.map_cons, List.map_nil, Heading.text, Heading.signature, ← String.append_assoc]
    exact (((outline_block (balanced_line _)).append outline_blank).append
      (outline_block (balanced_line _))).append outline_blank
  · cases f.textElement? with
    | none => exact .nil
    | some t => exact outline_textAccessors t name

theorem outline_marshalToArray (p : Plan) :
    Outline (marshalToArray p) ((arrayMethods p).map Heading.text) := by
  rw [marshalToArray, arrayMethods]
  split
  · exact (outline_block (((balanced_line _).append (balanced_line _)).append
      (balanced_line _))).append outline_blank
  · exact .nil

theorem outline_equality (p : Plan) (names : List String) :
    Outline (equality p names) (equalityMethods.map Heading.text) := by
  have hannotation : Outline (if p.parent.isSome then line "@Override" else []) [] := by
    split
    · exact outline_line _
    · exact .nil
  exact ((((outline_line _).append (outline_block (((balanced_line _).append
    (balanced_line _)).append (balanced_line _)))).append outline_blank).append
    hannotation).append (outline_block (balanced_equalityBody p names))

theorem outline_objectMethods (p : Plan) (names : List String) :
    Outline (marshal p names ++ marshalToArray p ++ unmarshal p names ++ equality p names)
      ((objectMethods p).map Heading.text) := by
  have hmarshal : Outline (marshal p names) [marshalMethod.text] :=
    (outline_block (balanced_marshalBody p names)).append outline_blank
  have hunmarshal : Outline (unmarshal p names) [unmarshalMethod.text] :=
    (outline_block (balanced_unmarshalBody p names)).append outline_blank
  simp only [objectMethods, List.map_append]
  exact ((hmarshal.append (outline_marshalToArray p)).append hunmarshal).append
    (outline_equality p names)

def preamble (p : Plan) (settings : Settings) : Code :=
  line "// Generated by pdugen. Do not edit." ++
    line ("package " ++ packageName settings ++ ";") ++ blank ++
    imports p settings ++ blank ++
    comment p.comment

def declarations (p : Plan) (names : List String) (terms : List SizeTerm) : Code :=
  Java.fields p names ++ Java.constructor p names ++ marshalledSize p names terms ++
    (p.fields.zip names).flatMap (fun x => accessors x.1 x.2) ++
    Java.marshal p names ++ marshalToArray p ++ Java.unmarshal p names ++ Java.equality p names

theorem outline_declarations (p : Plan) (names : List String) (terms : List SizeTerm) :
    Outline (declarations p names terms) ((methods p names).map Heading.text) := by
  have hconstructor : Outline (constructor p names) [(constructorHeading p).text] :=
    (outline_block (balanced_constructorBody p names)).append outline_blank
  have hsize : Outline (marshalledSize p names terms) [sizeMethod.text] :=
    (outline_block (balanced_sizeBody p names terms)).append outline_blank
  have haccessors : Outline ((p.fields.zip names).flatMap fun x => accessors x.1 x.2)
      ((accessorMethods p names).map Heading.text) := by
    rw [accessorMethods, List.map_flatMap]
    apply outline_flatMap
    rintro ⟨f, name⟩ -
    exact outline_accessors f name
  simpa [methods, declarations] using ((((outline_fields p names).append hconstructor).append
    hsize).append haccessors).append (outline_objectMethods p names)

/-- The fields, and the methods that have a step for each of them, each with its body under its
heading. -/
structure Bodies (p : Plan) (names : List String) (terms : List SizeTerm) (code : Code) : Prop where
  fields : fields p names <:+: code
  constructor : braced (constructorHeading p).signature (constructorBody p names) <:+: code
  marshal : braced marshalMethod.signature (marshalBody p names) <:+: code
  unmarshal : braced unmarshalMethod.signature (unmarshalBody p names) <:+: code
  size : braced sizeMethod.signature (sizeBody p names terms) <:+: code
  equality : braced equalityMethod.signature (equalityBody p names) <:+: code

theorem infix_declarations {p : Plan} {names : List String} {terms : List SizeTerm} {code : Code}
    (part : Code)
    (hpart : part ∈ [Java.fields p names, Java.constructor p names, marshalledSize p names terms,
      (p.fields.zip names).flatMap fun x => accessors x.1 x.2, Java.marshal p names,
      marshalToArray p, Java.unmarshal p names, Java.equality p names])
    (h : code <:+: part) : code <:+: declarations p names terms := by
  have hinfix := h.trans (List.infix_of_mem_flatten hpart)
  simpa only [declarations, List.flatten_cons, List.flatten_nil, List.append_nil,
    List.append_assoc] using hinfix

theorem bodies_declarations (p : Plan) (names : List String) (terms : List SizeTerm) :
    Bodies p names terms (declarations p names terms) where
  fields := infix_declarations (Java.fields p names) (by simp) (List.infix_refl _)
  constructor := infix_declarations (Java.constructor p names) (by simp)
    (List.prefix_append _ blank).isInfix
  marshal := infix_declarations (Java.marshal p names) (by simp)
    (List.prefix_append _ blank).isInfix
  unmarshal := infix_declarations (Java.unmarshal p names) (by simp)
    (List.prefix_append _ blank).isInfix
  size := infix_declarations (marshalledSize p names terms) (by simp)
    (List.prefix_append _ blank).isInfix
  equality := infix_declarations (Java.equality p names) (by simp)
    (List.suffix_append _ _).isInfix

theorem classUnit_eq_preamble_append {p : Plan} {settings : Settings} {code : Code}
    (h : classUnit p settings = .ok code) :
    ∃ terms names, p.sizeTerms = .ok terms ∧ members.identifiers p = .ok names ∧
      code = preamble p settings ++ braced (heading p) (declarations p names terms) := by
  obtain ⟨terms, hterms, h⟩ := Outcome.bind_eq_ok.1 h
  obtain ⟨names, hnames, h⟩ := Outcome.bind_eq_ok.1 h
  cases h
  exact ⟨terms, names, hterms, hnames, rfl⟩

theorem exists_classUnit {p : Plan} {settings : Settings} {names : List String} {code : Code}
    (hnames : members.identifiers p = .ok names) (h : classUnit p settings = .ok code) :
    ∃ front body, code = front ++ braced (heading p) body ∧
      Outline body ((methods p names).map Heading.text) := by
  obtain ⟨terms, names', -, hnames', rfl⟩ := classUnit_eq_preamble_append h
  obtain rfl : names = names' := Except.ok.inj (hnames.symm.trans hnames')
  exact ⟨preamble p settings, _, rfl, outline_declarations p names terms⟩

end Written

section Names

theorem toUpper_eq_cons {c : Char} {cs : List Char} (h : Text.toUpper c = 'M' :: cs) :
    cs = [] ∧ (c = 'M' ∨ c = 'm') := by
  have hexpansions : ∀ e ∈ Text.upperExpansions, (e.2.map Char.ofNat).head? ≠ some 'M' := by
    decide +kernel
  have hruns : ∀ r ∈ Text.upperRuns, r.first + r.shift ≤ 0x4d → 0x4d ≤ r.last + r.shift →
      r.shift = -32 := by
    decide +kernel
  rw [Text.toUpper, Text.mapCase] at h
  cases hexpansion : Text.upperExpansions.lookup c.toNat with
  | some ns =>
      rw [hexpansion] at h
      obtain ⟨pre, post, hsplit, -⟩ := List.lookup_eq_some_iff.1 hexpansion
      exact absurd (congrArg List.head? h) (hexpansions (c.toNat, ns) (by simp [hsplit]))
  | none =>
      rw [hexpansion] at h
      cases hrun : Text.CaseRun.find? c.toNat Text.upperRuns with
      | none =>
          rw [hrun] at h
          obtain ⟨rfl, rfl⟩ := List.cons.inj h
          exact ⟨rfl, .inl rfl⟩
      | some r =>
          rw [hrun] at h
          obtain ⟨hcapital, rfl⟩ := List.cons.inj h
          obtain ⟨hmem, hfirst, hlast⟩ := Text.CaseRun.of_find? hrun
          have hcode := Text.toNat_ofNat (c.toNat + r.shift).toNat
          rw [hcapital] at hcode
          have hM : 'M'.toNat = 0x4d := rfl
          have hshift := hruns r hmem (by omega) (by omega)
          have hm : c.toNat = 'm'.toNat := by
            have : 'm'.toNat = 0x6d := rfl
            omega
          exact ⟨rfl, .inr (Char.toNat_inj.1 hm)⟩

theorem toUpper_ne_nil (c : Char) : Text.toUpper c ≠ [] := by
  have hspelled : Text.Respells c (Text.toUpper c) :=
    Text.respells_mapCase Text.clearOfMarks_upper c
  by_cases hc : Text.IsMark c
  · rw [(Text.respells_mark hc).1 hspelled]
    exact List.cons_ne_nil c []
  · exact ((Text.respells_other hc).1 hspelled).1

theorem capitalize_eq_marshalledSize {s : String} (h : Naming.capitalize s = "MarshalledSize") :
    s = "MarshalledSize" ∨ s = "marshalledSize" := by
  rw [Naming.capitalize] at h
  split at h
  next => exact absurd h (by decide)
  next c rest hs =>
    have hchars : Text.toUpper c ++ rest = 'M' :: "arshalledSize".toList := by
      rw [← String.toList_ofList (l := Text.toUpper c ++ rest), h]
      rfl
    obtain ⟨d, ds, hupper⟩ := List.exists_cons_of_ne_nil (toUpper_ne_nil c)
    rw [hupper, List.cons_append] at hchars
    obtain ⟨rfl, hrest⟩ := List.cons.inj hchars
    obtain ⟨rfl, hc⟩ := toUpper_eq_cons hupper
    rw [List.nil_append] at hrest
    rw [hrest] at hs
    obtain rfl | rfl := hc
    · exact .inl (String.toList_inj.1 hs)
    · exact .inr (String.toList_inj.1 hs)

theorem fieldName_eq_marshalledSize {s : String} :
    fieldName s = "MarshalledSize" ↔ s = "MarshalledSize" := by
  have hkeyword : ¬keywords.contains "MarshalledSize" := by decide
  rw [fieldName]
  split
  next hs =>
    constructor
    · intro h
      have hlast : (s ++ "_").toList.getLast? = some '_' := by simp
      rw [h] at hlast
      exact absurd hlast (by decide)
    · rintro rfl
      exact absurd hs hkeyword
  next => rfl

theorem methodsOf_eq (f : FieldPlan) :
    members.methodsOf f = (fieldAccessors f (fieldName f.name)).map Heading.name := by
  change fieldMethods f (fieldName f.name) = _
  rw [fieldMethods, fieldAccessors]
  split <;> rfl

theorem accessorMethods_eq (p : Plan) :
    (accessorMethods p (members.identifiersOf p.fields)).map Heading.name =
      p.fields.flatMap members.methodsOf := by
  rw [accessorMethods, MemberRules.flatMap_zip_identifiersOf, List.map_flatMap,
    funext methodsOf_eq]
  rfl

theorem mem_methodsOf {f : FieldPlan} {name : String} (h : name ∈ members.methodsOf f) :
    name = getter (fieldName f.name) ∨ name = setter (fieldName f.name) ∨
      name = textGetter (fieldName f.name) ∨ name = textSetter (fieldName f.name) := by
  change name ∈ fieldMethods f (fieldName f.name) at h
  rw [fieldMethods] at h
  split at h
  · simpa using h
  · have hfirst : name = getter (fieldName f.name) ∨ name = setter (fieldName f.name) := by
      simpa using h
    exact hfirst.imp_right .inl

theorem head?_of_mem_methodsOf {f : FieldPlan} {name : String} (h : name ∈ members.methodsOf f) :
    name.toList.head? = some 'g' ∨ name.toList.head? = some 's' := by
  obtain rfl | rfl | rfl | rfl := mem_methodsOf h
  · exact .inl (by simp [getter])
  · exact .inr (by simp [setter])
  · exact .inl (by simp [textGetter])
  · exact .inr (by simp [textSetter])

theorem getter_mem_methodsOf (f : FieldPlan) :
    getter (fieldName f.name) ∈ members.methodsOf f :=
  List.mem_append_left _ List.mem_cons_self

theorem notMem_methodsOf {p : Plan} {method : Heading} (h : method ∈ objectMethods p)
    (f : FieldPlan) : method.name ∉ members.methodsOf f := by
  have hhead : method.name.toList.head? ≠ some 'g' ∧ method.name.toList.head? ≠ some 's' := by
    rw [objectMethods, arrayMethods] at h
    revert method
    cases p.root <;> decide
  intro hmem
  obtain hg | hs := head?_of_mem_methodsOf hmem
  · exact hhead.1 hg
  · exact hhead.2 hs

theorem sizeMethod_mem_methodsOf {f : FieldPlan} :
    sizeMethod.name ∈ members.methodsOf f ↔
      Naming.capitalize (fieldName f.name) = "MarshalledSize" := by
  constructor
  · intro h
    obtain h | h | h | h := mem_methodsOf h
    · exact (String.append_right_inj "get").1 h.symm
    · have hhead := congrArg (fun s => s.toList.head?) h
      simp [sizeMethod, setter] at hhead
    · have hlast := congrArg (fun s => s.toList.reverse.head?) h
      simp [sizeMethod, textGetter] at hlast
    · have hhead := congrArg (fun s => s.toList.head?) h
      simp [sizeMethod, textSetter] at hhead
  · intro h
    have hgetter : getter (fieldName f.name) = sizeMethod.name := by
      rw [getter, h]
      rfl
    rw [← hgetter]
    exact getter_mem_methodsOf f

theorem name_of_sizeMethod_mem {p : Plan} {f : FieldPlan}
    (hreserved : members.isReserved p (fieldName f.name) = false)
    (h : sizeMethod.name ∈ members.methodsOf f) : f.name = "MarshalledSize" := by
  obtain hname | hname := capitalize_eq_marshalledSize (sizeMethod_mem_methodsOf.1 h)
  · exact fieldName_eq_marshalledSize.1 hname
  · have hfree : reserved.contains (fieldName f.name) = false := hreserved
    rw [hname] at hfree
    exact absurd hfree (by decide)

end Names

/-- The accessors of a class whose fields are given names are called differently, and the blocks in
the class are those of the accessors and of the methods that every class has. An accessor is called
like one of the latter exactly if there is a field `MarshalledSize`. -/
theorem accessors_apart {p : Plan} {names : List String} (h : members.identifiers p = .ok names) :
    ((accessorMethods p names).map Heading.name).Nodup ∧
    (∀ method ∈ commonMethods p, method.name ∈ (accessorMethods p names).map Heading.name ↔
      method = sizeMethod ∧ ∃ f ∈ p.fields, f.name = "MarshalledSize") ∧
    ∀ settings code, classUnit p settings = .ok code →
      ∃ front body, code = front ++ braced (heading p) body ∧
        Outline body ((methods p names).map Heading.text) := by
  obtain ⟨rfl, -, hreserved, hnodup⟩ := MemberRules.identifiers_eq_ok List.nodup_nil h
  rw [accessorMethods_eq]
  refine ⟨hnodup, ?_, fun settings code hcode => exists_classUnit h hcode⟩
  intro method hmethod
  constructor
  · intro hname
    obtain ⟨f, hf, hname⟩ := List.mem_flatMap.1 hname
    obtain rfl | hmethod := List.mem_cons.1 hmethod
    · have hfree := hreserved (fieldName f.name) (List.mem_map.2 ⟨f, hf, rfl⟩)
      exact ⟨rfl, f, hf, name_of_sizeMethod_mem hfree hname⟩
    · exact absurd hname (notMem_methodsOf hmethod f)
  · rintro ⟨rfl, f, hf, hname⟩
    apply List.mem_flatMap.2
    refine ⟨f, hf, sizeMethod_mem_methodsOf.2 ?_⟩
    rw [hname]
    decide +kernel

def sampleNamed : Plan where
  name := "Named"
  parent := none
  comment := none
  root := false
  fields := [⟨"size", none, .scalar .int, none, false⟩,
    ⟨"class", none, .fixedScalars .byte 4, none, true⟩]
  assignments := []

theorem accessors_apart_named :
    ((accessorMethods sampleNamed ["size", "class_"]).map Heading.name).Nodup ∧
      ∀ method ∈ commonMethods sampleNamed,
        method.name ∉ (accessorMethods sampleNamed ["size", "class_"]).map Heading.name := by
  have h : members.identifiers sampleNamed = .ok ["size", "class_"] := by decide +kernel
  obtain ⟨hnodup, hcommon, -⟩ := accessors_apart h
  refine ⟨hnodup, ?_⟩
  intro method hmethod hmem
  obtain ⟨-, hfield⟩ := (hcommon method hmethod).1 hmem
  exact absurd hfield (by decide)

/-- A class with two methods of one name and without parameters. -/
def sampleSized : Plan where
  name := "A"
  parent := none
  comment := none
  root := false
  fields := [⟨"MarshalledSize", none, .scalar .int, none, false⟩]
  assignments := []

theorem accessors_overlap :
    members.identifiers sampleSized = .ok ["MarshalledSize"] ∧
      ((methods sampleSized ["MarshalledSize"]).map Heading.signature).take 3 =
        ["public A()", "public int getMarshalledSize()", "public int getMarshalledSize()"] := by
  decide +kernel

end WireSchema.Java
