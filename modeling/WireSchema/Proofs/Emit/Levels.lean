import WireSchema.Proofs.Emit.Bodies
import WireSchema.Proofs.Emit.Writer

namespace WireSchema

open Outcome

namespace Rust

open Code

theorem balanced_comment (text : Option String) : Balanced (comment text) :=
  balanced_flatMap fun _ => balanced_line _

theorem balanced_imports (p : Plan) (settings : Settings) : Balanced (imports p settings) := by
  apply Balanced.append _ (balanced_flatMap fun _ => balanced_line _)
  apply Balanced.append _ (balanced_flatMap fun _ => balanced_line _)
  apply Balanced.append _ (balanced_line _)
  apply balanced_ite balanced_nil
  exact balanced_ite (balanced_line _) (balanced_line _)

theorem balanced_structDef (p : Plan) (names : List String) (settings : Settings) :
    Balanced (structDef p names settings) := by
  apply ((balanced_comment _).append (balanced_line _)).append
  apply balanced_block
  apply Balanced.append
  · exact balanced_flatMap fun _ => balanced_line _
  · apply balanced_flatMap
    rintro ⟨f, name⟩
    exact (balanced_comment _).append (balanced_line _)

theorem balanced_initialisers (steps : List InitStep) (names : List String) :
    Balanced (initialisers steps names) := by
  induction steps generalizing names with
  | nil => exact balanced_nil
  | cons step steps ih =>
      cases step with
      | parent c => exact (balanced_line _).append (ih names)
      | assign a => exact ih names
      | field f init =>
          cases names with
          | nil => exact ih []
          | cons name names => exact (balanced_line _).append (ih names)

theorem balanced_defaultBody (p : Plan) (names : List String) : Balanced (defaultBody p names) := by
  have hfields := balanced_initialisers p.initSteps names
  apply balanced_ite (balanced_block hfields)
  apply Balanced.append _ (balanced_line _)
  exact (balanced_block hfields).append (balanced_flatMap fun _ => balanced_line _)

theorem balanced_defaultImpl (p : Plan) (names : List String) : Balanced (defaultImpl p names) :=
  balanced_block (balanced_block (balanced_defaultBody p names))

theorem balanced_inherentImpl (p : Plan) (names : List String) (terms : List SizeTerm) :
    Balanced (inherentImpl p names terms) := by
  obtain ⟨body, hbody, houtline⟩ := exists_inherentImpl p names terms
  rw [hbody]
  exact balanced_block ⟨_, houtline⟩

theorem balanced_equalityBlock (term : EqualityTerm) (name : String) :
    Balanced (equalityBlock term name) := by
  cases term with
  | parent c => exact balanced_line _
  | elements f => exact balanced_line _
  | value f =>
      rw [equalityBlock]
      cases f.layout <;> exact balanced_line _

theorem balanced_equalityBody (p : Plan) (names : List String) :
    Balanced (equalityBody p names) := by
  apply balanced_ite (balanced_line _)
  apply Balanced.append _ (balanced_line _)
  exact (balanced_line _).append (balanced_ofSteps balanced_equalityBlock _ _)

theorem balanced_equalityImpl (p : Plan) (names : List String) : Balanced (equalityImpl p names) :=
  balanced_block (balanced_block (balanced_equalityBody p names))

theorem balanced_index (classes : List String) (settings : Settings) :
    Balanced (index classes settings) := by
  apply Balanced.append _ (balanced_flatMap fun _ => balanced_line _)
  apply Balanced.append _ (balanced_line _)
  apply Balanced.append _ (balanced_flatMap fun _ => balanced_line _)
  exact ((balanced_line _).append (balanced_line _)).append (balanced_line _)

def preamble (p : Plan) (settings : Settings) : Code :=
  notice ++ blank ++ imports p settings ++ blank

theorem balanced_preamble (p : Plan) (settings : Settings) : Balanced (preamble p settings) :=
  (((balanced_line _).append (balanced_line _)).append (balanced_imports p settings)).append
    (balanced_line _)

def operations (p : Plan) (settings : Settings) (names : List String) (terms : List SizeTerm) :
    List Code :=
  [structDef p names settings, blank, defaultImpl p names, blank, inherentImpl p names terms, blank,
    equalityImpl p names]

theorem balanced_operations (p : Plan) (settings : Settings) (names : List String)
    (terms : List SizeTerm) : ∀ part ∈ operations p settings names terms, Balanced part := by
  simp only [operations, List.forall_mem_cons]
  exact ⟨balanced_structDef p names settings, balanced_line _, balanced_defaultImpl p names,
    balanced_line _, balanced_inherentImpl p names terms, balanced_line _,
    balanced_equalityImpl p names, List.forall_mem_nil _⟩

/-- The indentation in the module of a class. -/
structure Levels (p : Plan) (settings : Settings) (names : List String) (terms : List SizeTerm)
    (code : Code) : Prop where
  closes : Closes Backend.indent code
  operations : Row Backend.indent code (preamble p settings) (operations p settings names terms)
    [] 0
  functions : ∃ front parts back,
    inherentImpl p names terms =
      braced ("impl " ++ typeName p.name) parts.flatten ∧
    parts.filterMap heading? = (functions p names).map Heading.text ∧
    Row Backend.indent code front parts back 1

theorem levels_of_classModule {p : Plan} {settings : Settings} {code : Code}
    (h : classModule p settings = .ok code) :
    ∃ names terms, members.identifiers p = .ok names ∧ p.sizeTerms = .ok terms ∧
      Levels p settings names terms code := by
  obtain ⟨terms, names, hterms, hnames, hcode⟩ := classModule_eq_ok h
  have hpreamble := balanced_preamble p settings
  have hoperations := balanced_operations p settings names terms
  have hparts : code =
      preamble p settings ++ (operations p settings names terms).flatten ++ [] := by
    simp [hcode, preamble, operations, implementation]
  refine ⟨names, terms, hnames, hterms, ?_, ?_, ?_⟩
  · rw [hparts, List.append_nil]
    exact (hpreamble.append (balanced_flatten hoperations)).closes
  · obtain ⟨heads, hpreamble⟩ := hpreamble
    exact row_of_balanced hparts (hpreamble.levelAfter_eq 0) hoperations
  · obtain ⟨body, hbody, houtline⟩ := exists_inherentImpl p names terms
    obtain ⟨parts, rfl, hfunctions, hheads⟩ := houtline.exists_parts
    have himpl : code = preamble p settings ++ structDef p names settings ++ blank ++
        defaultImpl p names ++ blank ++
        braced ("impl " ++ typeName p.name) parts.flatten ++
        (blank ++ equalityImpl p names) := by
      rw [← hbody]
      simp [hcode, preamble, implementation]
    have hfront := (((hpreamble.append (balanced_structDef p names settings)).append
      (balanced_line "")).append (balanced_defaultImpl p names)).append (balanced_line "")
    exact ⟨_, parts, _, hbody, hheads, row_of_block himpl hfront hfunctions⟩

end Rust

namespace Java

open Code

theorem balanced_imports (p : Plan) (settings : Settings) : Balanced (imports p settings) := by
  apply Balanced.append _ (balanced_flatMap fun _ => balanced_line _)
  apply Balanced.append _ (balanced_ite (balanced_line _) balanced_nil)
  apply Balanced.append _ (balanced_ite (balanced_line _) balanced_nil)
  apply Balanced.append _
    (balanced_ite ((balanced_line _).append (balanced_line _)) balanced_nil)
  apply Balanced.append _ (balanced_line _)
  apply Balanced.append _ (balanced_line _)
  exact (balanced_ite (balanced_line _) balanced_nil).append (balanced_line _)

theorem balanced_preamble (p : Plan) (settings : Settings) : Balanced (preamble p settings) := by
  apply Balanced.append
  · apply Balanced.append _ (balanced_line _)
    apply Balanced.append _ (balanced_imports p settings)
    exact ((balanced_line _).append (balanced_line _)).append (balanced_line _)
  · apply balanced_flatMap
    intro text
    exact ((balanced_line _).append (balanced_line _)).append (balanced_line _)

def operations (p : Plan) (names : List String) (terms : List SizeTerm) : List Code :=
  [fields p names, constructor p names, marshalledSize p names terms] ++
    (p.fields.zip names).map (fun x => accessors x.1 x.2) ++
    [marshal p names, marshalToArray p, unmarshal p names, equality p names]

theorem flatten_operations (p : Plan) (names : List String) (terms : List SizeTerm) :
    (operations p names terms).flatten = declarations p names terms := by
  simp [operations, declarations, List.flatMap_def]

theorem balanced_operations (p : Plan) (names : List String) (terms : List SizeTerm) :
    ∀ part ∈ operations p names terms, Balanced part := by
  have hmethod {first : String} {body : Code} (h : Balanced body) :
      Balanced (braced first body ++ blank) :=
    (balanced_block h).append (balanced_line "")
  simp only [operations, List.forall_mem_append, List.forall_mem_cons]
  refine ⟨⟨⟨⟨_, outline_fields p names⟩, hmethod (balanced_constructorBody p names),
    hmethod (balanced_sizeBody p names terms), List.forall_mem_nil _⟩, ?_⟩,
    hmethod (balanced_marshalBody p names), ⟨_, outline_marshalToArray p⟩,
    hmethod (balanced_unmarshalBody p names), ⟨_, outline_equality p names⟩,
    List.forall_mem_nil _⟩
  intro part hpart
  obtain ⟨⟨f, name⟩, -, rfl⟩ := List.mem_map.1 hpart
  exact ⟨_, outline_accessors f name⟩

/-- The indentation in the unit of a class. -/
structure Levels (p : Plan) (settings : Settings) (names : List String) (terms : List SizeTerm)
    (code : Code) : Prop where
  closes : Closes Backend.indent code
  operations : Row Backend.indent code (preamble p settings ++ opened (heading p))
    (operations p names terms) closed 1
  methods : ∃ parts : List Code,
    parts.flatten = declarations p names terms ∧
    parts.filterMap heading? = (methods p names).map Heading.text ∧
    Row Backend.indent code (preamble p settings ++ opened (heading p)) parts
      closed 1

theorem levels_of_classUnit {p : Plan} {settings : Settings} {code : Code}
    (h : classUnit p settings = .ok code) :
    ∃ names terms, members.identifiers p = .ok names ∧ p.sizeTerms = .ok terms ∧
      Levels p settings names terms code := by
  obtain ⟨terms, names, hterms, hnames, rfl⟩ := classUnit_eq_preamble_append h
  have hpreamble := balanced_preamble p settings
  have hdeclarations := outline_declarations p names terms
  refine ⟨names, terms, hnames, hterms, ?_, ?_, ?_⟩
  · exact (hpreamble.append (balanced_block ⟨_, hdeclarations⟩)).closes
  · rw [← flatten_operations]
    exact row_of_block (List.append_nil _).symm hpreamble (balanced_operations p names terms)
  · obtain ⟨parts, hparts, hbalanced, hheads⟩ := hdeclarations.exists_parts
    refine ⟨parts, hparts, hheads, ?_⟩
    rw [← hparts]
    exact row_of_block (List.append_nil _).symm hpreamble hbalanced

end Java

/-- The code of a class that is rendered in either language closes each block that it opens, and so
does an index of modules. No block is closed where none is open, and the parts of a module and the
members of a class begin and end at one indentation. -/
theorem render_closes_blocks (p : Plan) (settings : Settings) (text : String) :
    (Backend.rust.render p settings = .ok text → ∃ code names terms,
      Rust.classModule p settings = .ok code ∧
      text = (Writer.start.run Backend.indent code).text ∧
      Rust.members.identifiers p = .ok names ∧ p.sizeTerms = .ok terms ∧
      Rust.Levels p settings names terms code) ∧
    (Backend.java.render p settings = .ok text → ∃ code names terms,
      Java.classUnit p settings = .ok code ∧
      text = (Writer.start.run Backend.indent code).text ∧
      Java.members.identifiers p = .ok names ∧ p.sizeTerms = .ok terms ∧
      Java.Levels p settings names terms code) ∧
    ∀ (b : Language) classes path, b.backend.index? classes settings = some (path, text) →
      text = (Writer.start.run Backend.indent (Rust.index classes settings)).text ∧
      Code.Closes Backend.indent (Rust.index classes settings) := by
  refine ⟨?_, ?_, ?_⟩
  · intro h
    obtain ⟨code, hcode, rfl⟩ := map_eq_ok.1 h
    obtain ⟨names, terms, hnames, hterms, hlevels⟩ := Rust.levels_of_classModule hcode
    exact ⟨code, names, terms, hcode, (Writer.text_run_start code).symm, hnames, hterms, hlevels⟩
  · intro h
    obtain ⟨code, hcode, rfl⟩ := map_eq_ok.1 h
    obtain ⟨names, terms, hnames, hterms, hlevels⟩ := Java.levels_of_classUnit hcode
    exact ⟨code, names, terms, hcode, (Writer.text_run_start code).symm, hnames, hterms, hlevels⟩
  · intro b classes path h
    cases b with
    | java => cases h
    | rust =>
        cases h
        exact ⟨(Writer.text_run_start _).symm, (Rust.balanced_index classes settings).closes⟩

theorem render_closes_blocks_stepped :
    (∃ text code, Backend.rust.render Plan.sampleStepped .empty = .ok text ∧
      Rust.classModule Plan.sampleStepped .empty = .ok code ∧ Code.Closes Backend.indent code) ∧
    (∃ text code, Backend.java.render Plan.sampleStepped .empty = .ok text ∧
      Java.classUnit Plan.sampleStepped .empty = .ok code ∧ Code.Closes Backend.indent code) ∧
    Code.Closes Backend.indent (Rust.index ["Base", "Stepped"] .empty) := by
  have hrust : error? (Backend.rust.render Plan.sampleStepped .empty) = none := by decide +kernel
  have hjava : error? (Backend.java.render Plan.sampleStepped .empty) = none := by decide +kernel
  obtain ⟨text, htext⟩ := error?_eq_none.1 hrust
  obtain ⟨text', htext'⟩ := error?_eq_none.1 hjava
  refine ⟨?_, ?_, ?_⟩
  · obtain ⟨code, names, terms, hcode, -, -, -, hlevels⟩ :=
      (render_closes_blocks _ _ text).1 htext
    exact ⟨text, code, htext, hcode, hlevels.closes⟩
  · obtain ⟨code, names, terms, hcode, -, -, -, hlevels⟩ :=
      (render_closes_blocks _ _ text').2.1 htext'
    exact ⟨text', code, htext', hcode, hlevels.closes⟩
  · exact ((render_closes_blocks Plan.sampleStepped .empty _).2.2 .rust ["Base", "Stepped"] _ rfl).2

end WireSchema
