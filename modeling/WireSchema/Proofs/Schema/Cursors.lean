import Mathlib.Data.List.Induction
import WireSchema.Proofs.Markup.Node
import WireSchema.Schema.Reader

namespace WireSchema

open Markup (Event Node)

open Outcome

namespace Reader

def run (s : State) (es : List Event) : Except LoadError State :=
  es.foldlM step s

def Scope.allowed : Scope → List Keyword
  | .cls => [.field, .initialValue]
  | .field => [.primitive, .classRef, .list]
  | .list => [.primitive, .classRef]
  | .root | .backend | .leaf | .ignored => Keyword.all

def Scope.isSkipped : Scope → Bool
  | backend | leaf | ignored => true
  | root | cls | field | list => false

def State.declareList (s : State) (c : ClassDef) (f : FieldCursor) (l : ListCursor) : State :=
  let opened := { s with field := some { f with hasType := true }, list := some l }
  match l.countField with
  | none => opened
  | some n =>
    match linkCount? n c.fields.length c.fields with
    | some fields => { opened with cls := some { c with fields } }
    | none => { opened with
        loaded.warnings := s.loaded.warnings ++ [⟨c.name, some f.field.name, .countNotEarlier n⟩] }

/-- One event, where there is all that it needs: a class, a field and a list in the elements that
declare them, and an open element for an element to end. Nothing says here what happens otherwise. -/
inductive Step (s : State) : Event → Except LoadError State → Prop
  | root {name attributes line} (hscope : s.scopes = []) :
      Step s (.start name attributes line) (.ok (s.enter .root))
  | cls {name attributes line} (hscope : s.scopes.head? = some .root)
      (hkeyword : Keyword.ofName? name = some .cls) :
      Step s (.start name attributes line)
        ((fun c => { s with cls := some c }.enter .cls) <$> beginClass ⟨name, attributes, line⟩)
  | settings {name attributes line} (hscope : s.scopes.head? = some .root)
      (hkeyword : Keyword.ofName? name ≠ some .cls) :
      Step s (.start name attributes line)
        (.ok ((addSettings s ⟨name, attributes, line⟩).enter .backend))
  | field {name attributes line} (hscope : s.scopes.head? = some .cls)
      (hkeyword : Keyword.ofName? name = some .field) :
      Step s (.start name attributes line)
        ((fun f => { s with field := some f }.enter .field) <$> beginField ⟨name, attributes, line⟩)
  | initialValue {name attributes line} {c : ClassDef} (hscope : s.scopes.head? = some .cls)
      (hcls : s.cls = some c) (hkeyword : Keyword.ofName? name = some .initialValue) :
      Step s (.start name attributes line)
        ((fun v => { s with cls := some { c with initial := c.initial ++ [v] } }.enter .leaf) <$>
          Reader.initialValue ⟨name, attributes, line⟩)
  | primitive {name attributes line} {c : ClassDef} {f : FieldCursor}
      (hscope : s.scopes.head? = some .field) (hcls : s.cls = some c) (hfield : s.field = some f)
      (hkeyword : Keyword.ofName? name = some .primitive) :
      Step s (.start name attributes line) (primitiveName ⟨name, attributes, line⟩ >>= fun type =>
        if f.hasType then .error (.multipleTypes line c.name f.field.name)
        else .ok ({ s with field := some ⟨{ f.field with
          type := .primitive type (attributes.lookup "defaultValue") none }, true, f.line⟩ }.enter
            .leaf))
  | classRef {name attributes line} {c : ClassDef} {f : FieldCursor}
      (hscope : s.scopes.head? = some .field) (hcls : s.cls = some c) (hfield : s.field = some f)
      (hkeyword : Keyword.ofName? name = some .classRef) :
      Step s (.start name attributes line) (referredClass ⟨name, attributes, line⟩ >>= fun type =>
        if f.hasType then .error (.multipleTypes line c.name f.field.name)
        else .ok ({ s with
          field := some ⟨{ f.field with type := .classRef type }, true, f.line⟩ }.enter .leaf))
  | list {name attributes line} {c : ClassDef} {f : FieldCursor}
      (hscope : s.scopes.head? = some .field) (hcls : s.cls = some c) (hfield : s.field = some f)
      (hkeyword : Keyword.ofName? name = some .list) :
      Step s (.start name attributes line)
        (if f.hasType then .error (.multipleTypes line c.name f.field.name)
        else (fun l => (s.declareList c f l).enter .list) <$> beginList ⟨name, attributes, line⟩)
  | primitiveElement {name attributes line} {c : ClassDef} {f : FieldCursor} {l : ListCursor}
      (hscope : s.scopes.head? = some .list) (hcls : s.cls = some c) (hfield : s.field = some f)
      (hlist : s.list = some l) (hkeyword : Keyword.ofName? name = some .primitive) :
      Step s (.start name attributes line) (primitiveName ⟨name, attributes, line⟩ >>= fun type =>
        if l.element.isSome then .error (.multipleTypes line c.name f.field.name)
        else .ok ({ s with list := some { l with element := some (.primitive type) } }.enter .leaf))
  | classElement {name attributes line} {c : ClassDef} {f : FieldCursor} {l : ListCursor}
      (hscope : s.scopes.head? = some .list) (hcls : s.cls = some c) (hfield : s.field = some f)
      (hlist : s.list = some l) (hkeyword : Keyword.ofName? name = some .classRef) :
      Step s (.start name attributes line) (referredClass ⟨name, attributes, line⟩ >>= fun type =>
        if l.element.isSome then .error (.multipleTypes line c.name f.field.name)
        else .ok ({ s with list := some { l with element := some (.ofClass type) } }.enter .leaf))
  | misplaced {name attributes line} {scope : Scope} {k : Keyword}
      (hscope : s.scopes.head? = some scope) (hkeyword : Keyword.ofName? name = some k)
      (hallowed : k ∉ scope.allowed) :
      Step s (.start name attributes line) (.error (.unexpectedElement line name scope.name))
  | unknown {name attributes line} {scope : Scope} (hscope : s.scopes.head? = some scope)
      (hkeyword : Keyword.ofName? name = none) (hne : scope ≠ .root) :
      Step s (.start name attributes line) (.ok (s.enter .ignored))
  | passedOver {name attributes line} {scope : Scope} (hscope : s.scopes.head? = some scope)
      (hskipped : scope.isSkipped) :
      Step s (.start name attributes line) (.ok (s.enter .ignored))
  | endClass {name line} {c : ClassDef} {scopes : List Scope} (hscope : s.scopes = .cls :: scopes)
      (hcls : s.cls = some c) :
      Step s (.stop name line)
        ((s.loaded.schema.registry.insert? c).elim (.error (.duplicateClass line c.name))
          fun registry => .ok { s with scopes, loaded.schema.registry := registry, cls := none })
  | endField {name line} {c : ClassDef} {f : FieldCursor} {scopes : List Scope}
      (hscope : s.scopes = .field :: scopes) (hcls : s.cls = some c) (hfield : s.field = some f) :
      Step s (.stop name line)
        (if f.hasType then
          .ok { s with scopes, cls := some { c with fields := c.fields ++ [f.field] }, field := none }
        else .error (.missingType f.line c.name f.field.name))
  | endList {name line} {c : ClassDef} {f : FieldCursor} {l : ListCursor} {scopes : List Scope}
      (hscope : s.scopes = .list :: scopes) (hcls : s.cls = some c) (hfield : s.field = some f)
      (hlist : s.list = some l) (hcount : l.isVariable → l.countField.isSome) :
      Step s (.stop name line)
        (l.element.elim (.error (.missingType line c.name f.field.name)) fun element => .ok { s with
          scopes
          field := some { f with field.type := l.type element }
          list := none })
  | endOther {name line} {scope : Scope} {scopes : List Scope} (hscope : s.scopes = scope :: scopes)
      (hother : scope ≠ .cls ∧ scope ≠ .field ∧ scope ≠ .list) :
      Step s (.stop name line) (.ok { s with scopes })

def Scope.fits : Scope → Option Scope → Bool
  | .root, outer => outer = none
  | .backend, outer | .cls, outer => outer = some .root
  | .field, outer => outer = some .cls
  | .list, outer => outer = some .field
  | .leaf, outer => outer = some .cls ∨ outer = some .field ∨ outer = some .list
  | .ignored, outer => outer ≠ none ∧ outer ≠ some .root

def Nested : List Scope → Prop
  | [] => True
  | scope :: scopes => scope.fits scopes.head? ∧ Nested scopes

/-- There is a class, a field and a list exactly in the elements that declare them. -/
structure State.Aligned (s : State) : Prop where
  nested : Nested s.scopes
  cls : s.cls.isSome ↔ .cls ∈ s.scopes
  field : s.field.isSome ↔ .field ∈ s.scopes
  list : s.list.isSome ↔ .list ∈ s.scopes
  counted : ∀ l, s.list = some l → l.isVariable → l.countField.isSome

theorem State.aligned_empty : State.Aligned {} :=
  ⟨trivial, by simp, by simp, by simp, nofun⟩

section Nesting

variable {scopes : List Scope}

theorem eq_cons_of_head? {scope : Scope} (h : scopes.head? = some scope) :
    ∃ rest, scopes = scope :: rest :=
  List.head?_eq_some_iff.1 h

theorem nested_root (h : Nested (.root :: scopes)) : scopes = [] := by
  simpa [Nested, Scope.fits] using h.1

theorem nested_cls (h : Nested (.cls :: scopes)) : scopes = [.root] := by
  obtain ⟨hfits, h⟩ := h
  obtain ⟨rest, rfl⟩ := eq_cons_of_head? (by simpa [Scope.fits] using hfits)
  rw [nested_root h]

theorem nested_field (h : Nested (.field :: scopes)) : scopes = [.cls, .root] := by
  obtain ⟨hfits, h⟩ := h
  obtain ⟨rest, rfl⟩ := eq_cons_of_head? (by simpa [Scope.fits] using hfits)
  rw [nested_cls h]

theorem nested_list (h : Nested (.list :: scopes)) : scopes = [.field, .cls, .root] := by
  obtain ⟨hfits, h⟩ := h
  obtain ⟨rest, rfl⟩ := eq_cons_of_head? (by simpa [Scope.fits] using hfits)
  rw [nested_field h]

end Nesting

namespace State.Aligned

variable {s : State} {scopes : List Scope}

theorem exists_cls (h : s.Aligned) (hmem : .cls ∈ s.scopes) : ∃ c, s.cls = some c :=
  Option.isSome_iff_exists.1 (h.cls.2 hmem)

theorem exists_field (h : s.Aligned) (hmem : .field ∈ s.scopes) : ∃ f, s.field = some f :=
  Option.isSome_iff_exists.1 (h.field.2 hmem)

theorem exists_list (h : s.Aligned) (hmem : .list ∈ s.scopes) : ∃ l, s.list = some l :=
  Option.isSome_iff_exists.1 (h.list.2 hmem)

theorem in_field (h : s.Aligned) (hscope : s.scopes.head? = some .field) :
    ∃ c f, s.cls = some c ∧ s.field = some f := by
  obtain ⟨rest, hs⟩ := eq_cons_of_head? hscope
  have hrest := nested_field (hs ▸ h.nested)
  obtain ⟨c, hc⟩ := h.exists_cls (by simp [hs, hrest])
  obtain ⟨f, hf⟩ := h.exists_field (by simp [hs])
  exact ⟨c, f, hc, hf⟩

theorem in_list (h : s.Aligned) (hscope : s.scopes.head? = some .list) :
    ∃ c f l, s.cls = some c ∧ s.field = some f ∧ s.list = some l := by
  obtain ⟨rest, hs⟩ := eq_cons_of_head? hscope
  have hrest := nested_list (hs ▸ h.nested)
  obtain ⟨c, hc⟩ := h.exists_cls (by simp [hs, hrest])
  obtain ⟨f, hf⟩ := h.exists_field (by simp [hs, hrest])
  obtain ⟨l, hl⟩ := h.exists_list (by simp [hs])
  exact ⟨c, f, l, hc, hf, hl⟩

end State.Aligned

section Steps

variable {s : State}

theorem multipleTypes_eq {c : ClassDef} {f : FieldCursor} (hcls : s.cls = some c)
    (hfield : s.field = some f) (line : Nat) :
    s.multipleTypes line = .multipleTypes line c.name f.field.name := by
  rw [State.multipleTypes, State.className, State.fieldName, hcls, hfield]
  rfl

theorem setType_enter {c : ClassDef} {f : FieldCursor} (hcls : s.cls = some c)
    (hfield : s.field = some f) (line : Nat) (type : FieldType) :
    (State.enter · .leaf) <$> setType s line type =
      if f.hasType then .error (.multipleTypes line c.name f.field.name)
      else .ok ({ s with field := some ⟨{ f.field with type }, true, f.line⟩ }.enter .leaf) := by
  simp only [setType, hfield, multipleTypes_eq hcls hfield]
  split <;> rfl

theorem setElement_enter {c : ClassDef} {f : FieldCursor} {l : ListCursor} (hcls : s.cls = some c)
    (hfield : s.field = some f) (hlist : s.list = some l) (tag : StartTag) (element : ElementType) :
    (State.enter · .leaf) <$> setElement s tag element =
      if l.element.isSome then .error (.multipleTypes tag.line c.name f.field.name)
      else .ok ({ s with list := some { l with element := some element } }.enter .leaf) := by
  simp only [setElement, hlist, multipleTypes_eq hcls hfield, Option.any_some]
  split <;> rfl

theorem openList_enter {c : ClassDef} {f : FieldCursor} (hcls : s.cls = some c)
    (hfield : s.field = some f) (tag : StartTag) : (State.enter · .list) <$> openList s tag =
      if f.hasType then .error (.multipleTypes tag.line c.name f.field.name)
      else (fun l => (s.declareList c f l).enter .list) <$> beginList tag := by
  simp only [openList, hfield, multipleTypes_eq hcls hfield, Option.any_some]
  split
  · rfl
  · cases beginList tag with
    | error e => rfl
    | ok l =>
        change Except.ok _ = Except.ok _
        simp only [State.declareList]
        cases l.countField with
        | none => simp only [Option.elim_none, hfield, Option.map_some]
        | some n =>
            simp only [Option.elim_some, link, hcls, State.className, State.fieldName, hfield]
            cases linkCount? n c.fields.length c.fields <;> rfl

section Starts

variable {name : String} (attributes : List (String × String)) (line : Nat)

theorem step_refuse {scope : Scope} (hscope : s.scopes.head? = some scope) (hne : scope ≠ .root)
    (h : ∀ k ∈ scope.allowed, Keyword.ofName? name ≠ some k) : Step s (.start name attributes line)
      (refuse s (Keyword.ofName? name) scope ⟨name, attributes, line⟩) := by
  cases hk : Keyword.ofName? name with
  | none => exact .unknown hscope hk hne
  | some k => exact .misplaced hscope hk fun hallowed => h k hallowed hk

theorem step_start_root (hscope : s.scopes.head? = some .root) :
    Step s (.start name attributes line) (start s ⟨name, attributes, line⟩) := by
  simp only [start, hscope]
  split
  next hk =>
    rw [bind_pure_comp]
    exact .cls hscope hk
  next hk => exact .settings hscope hk

theorem step_start_cls (h : s.Aligned) (hscope : s.scopes.head? = some .cls) :
    Step s (.start name attributes line) (start s ⟨name, attributes, line⟩) := by
  obtain ⟨c, hc⟩ := h.exists_cls (List.mem_of_mem_head? hscope)
  simp only [start, hscope]
  split
  next hk =>
    rw [bind_pure_comp]
    exact .field hscope hk
  next hk =>
    simp only [addInitialValue, hc, Option.map_some, bind_pure_comp]
    exact .initialValue hscope hc hk
  next hfield hvalue =>
    exact step_refuse attributes line hscope (by decide)
      (by simpa [Scope.allowed] using ⟨hfield, hvalue⟩)

theorem step_start_field (h : s.Aligned) (hscope : s.scopes.head? = some .field) :
    Step s (.start name attributes line) (start s ⟨name, attributes, line⟩) := by
  obtain ⟨c, f, hc, hf⟩ := h.in_field hscope
  simp only [start, hscope]
  split
  next hk =>
    simp only [bind_pure_comp, setType_enter hc hf]
    exact .primitive hscope hc hf hk
  next hk =>
    simp only [bind_pure_comp, setType_enter hc hf]
    exact .classRef hscope hc hf hk
  next hk =>
    rw [bind_pure_comp, openList_enter hc hf]
    exact .list hscope hc hf hk
  next hprimitive href hlist =>
    exact step_refuse attributes line hscope (by decide)
      (by simpa [Scope.allowed] using ⟨hprimitive, href, hlist⟩)

theorem step_start_list (h : s.Aligned) (hscope : s.scopes.head? = some .list) :
    Step s (.start name attributes line) (start s ⟨name, attributes, line⟩) := by
  obtain ⟨c, f, l, hc, hf, hl⟩ := h.in_list hscope
  simp only [start, hscope]
  split
  next hk =>
    simp only [bind_pure_comp, setElement_enter hc hf hl]
    exact .primitiveElement hscope hc hf hl hk
  next hk =>
    simp only [bind_pure_comp, setElement_enter hc hf hl]
    exact .classElement hscope hc hf hl hk
  next hprimitive href =>
    exact step_refuse attributes line hscope (by decide)
      (by simpa [Scope.allowed] using ⟨hprimitive, href⟩)

end Starts

theorem step_start (h : s.Aligned) (name : String) (attributes : List (String × String))
    (line : Nat) : Step s (.start name attributes line) (start s ⟨name, attributes, line⟩) := by
  cases hscope : s.scopes.head? with
  | none =>
      simp only [start, hscope]
      exact .root (List.head?_eq_none_iff.1 hscope)
  | some scope =>
      cases scope with
      | root => exact step_start_root attributes line hscope
      | cls => exact step_start_cls attributes line h hscope
      | field => exact step_start_field attributes line h hscope
      | list => exact step_start_list attributes line h hscope
      | backend | leaf | ignored =>
          simp only [start, hscope]
          exact .passedOver hscope rfl

theorem step_stop (h : s.Aligned) (hopen : s.scopes ≠ []) (name : String) (line : Nat) :
    Step s (.stop name line) (stop s line) := by
  cases hscope : s.scopes with
  | nil => exact absurd hscope hopen
  | cons scope scopes =>
      have hhead : s.scopes.head? = some scope := by simp [hscope]
      cases scope with
      | cls =>
          obtain ⟨c, hc⟩ := h.exists_cls (List.mem_of_mem_head? hhead)
          have hstep : Step s (.stop name line) _ := .endClass hscope hc
          simp only [stop, hscope, closeClass, hc]
          cases hr : s.loaded.schema.registry.insert? c <;> rw [hr] at hstep <;> exact hstep
      | field =>
          obtain ⟨c, f, hc, hf⟩ := h.in_field hhead
          simp only [stop, hscope, closeField, hc, hf]
          exact .endField hscope hc hf
      | list =>
          obtain ⟨c, f, l, hc, hf, hl⟩ := h.in_list hhead
          have hstep : Step s (.stop name line) _ := .endList hscope hc hf hl (h.counted l hl)
          simp only [stop, hscope, closeList, hl, State.className, State.fieldName, hc, hf]
          simp only [hc] at hstep
          cases he : l.element <;> rw [he] at hstep <;> exact hstep
      | root | backend | leaf | ignored =>
          simp only [stop, hscope]
          exact .endOther hscope (by simp)

theorem State.Aligned.enter (h : s.Aligned) {scope : Scope} (hfits : scope.fits s.scopes.head?)
    (hscope : scope ≠ .cls ∧ scope ≠ .field ∧ scope ≠ .list) : (s.enter scope).Aligned where
  nested := ⟨hfits, h.nested⟩
  cls := by simpa [State.enter, hscope.1.symm] using h.cls
  field := by simpa [State.enter, hscope.2.1.symm] using h.field
  list := by simpa [State.enter, hscope.2.2.symm] using h.list
  counted := h.counted

theorem State.Aligned.set_cls (h : s.Aligned) {c c' : ClassDef} (hcls : s.cls = some c) :
    { s with cls := some c' }.Aligned :=
  ⟨h.nested, by simpa [hcls] using h.cls, h.field, h.list, h.counted⟩

theorem State.Aligned.set_field (h : s.Aligned) {f f' : FieldCursor} (hfield : s.field = some f) :
    { s with field := some f' }.Aligned :=
  ⟨h.nested, h.cls, by simpa [hfield] using h.field, h.list, h.counted⟩

theorem State.Aligned.set_element (h : s.Aligned) {l : ListCursor} {element : Option ElementType}
    (hlist : s.list = some l) : { s with list := some { l with element } }.Aligned := by
  refine ⟨h.nested, h.cls, h.field, by simpa [hlist] using h.list, ?_⟩
  rintro _ ⟨⟩
  exact h.counted l hlist

theorem State.Aligned.declareList (h : s.Aligned) {c : ClassDef} {f : FieldCursor} {l : ListCursor}
    (hscope : s.scopes.head? = some .field) (hcls : s.cls = some c) (hfield : s.field = some f)
    (hl : l.isVariable → l.countField.isSome) : ((s.declareList c f l).enter .list).Aligned := by
  have haligned (t : State) (hscopes : t.scopes = s.scopes) (hc : t.cls.isSome)
      (hf : t.field.isSome) (hlist : t.list = some l) : (t.enter .list).Aligned := by
    constructor
    · simp only [State.enter, hscopes]
      exact ⟨by simp [Scope.fits, hscope], h.nested⟩
    · simpa [State.enter, hscopes, hc, hcls] using h.cls
    · simpa [State.enter, hscopes, hf, hfield] using h.field
    · simp [State.enter, hlist]
    · intro l' hl'
      cases hlist.symm.trans hl'
      exact hl
  rw [State.declareList]
  split
  · exact haligned _ rfl (by simp [hcls]) rfl rfl
  · split
    · exact haligned _ rfl rfl rfl rfl
    · exact haligned _ rfl (by simp [hcls]) rfl rfl

theorem counted_of_beginList {tag : StartTag} {l : ListCursor} (h : beginList tag = .ok l) :
    l.isVariable → l.countField.isSome := by
  obtain ⟨type, -, h⟩ := bind_eq_ok.1 h
  split at h
  next =>
    obtain ⟨isVariable, hvariable, h⟩ := bind_eq_ok.1 h
    obtain ⟨text, -, h⟩ := bind_eq_ok.1 h
    cases hvariable
    cases h
    exact fun hfalse => Bool.noConfusion hfalse
  next =>
    obtain ⟨isVariable, hvariable, h⟩ := bind_eq_ok.1 h
    obtain ⟨text, -, h⟩ := bind_eq_ok.1 h
    cases hvariable
    obtain ⟨countField, -, h⟩ := bind_eq_ok.1 h
    cases h
    exact fun _ => rfl
  next => cases h

theorem aligned_start (h : s.Aligned) {name : String} {attributes : List (String × String)}
    {line : Nat} {r : Except LoadError State} (hstep : Step s (.start name attributes line) r)
    {t : State} (hr : r = .ok t) : t.Aligned ∧ ∃ scope, t.scopes = scope :: s.scopes := by
  cases hstep with
  | root hscope =>
      cases hr
      exact ⟨h.enter (by simp [hscope, Scope.fits]) (by decide), .root, rfl⟩
  | settings hscope =>
      cases hr
      have haligned : (addSettings s ⟨name, attributes, line⟩).Aligned := ⟨h.1, h.2, h.3, h.4, h.5⟩
      exact ⟨haligned.enter (by simp [addSettings, hscope, Scope.fits]) (by decide), .backend, rfl⟩
  | cls hscope =>
      obtain ⟨c, -, rfl⟩ := map_eq_ok.1 hr
      refine ⟨⟨⟨by simp [hscope, Scope.fits], h.nested⟩, ?_, ?_, ?_, h.counted⟩, .cls, rfl⟩
      · simp [State.enter]
      · simpa [State.enter] using h.field
      · simpa [State.enter] using h.list
  | field hscope =>
      obtain ⟨f, -, rfl⟩ := map_eq_ok.1 hr
      refine ⟨⟨⟨by simp [hscope, Scope.fits], h.nested⟩, ?_, ?_, ?_, h.counted⟩, .field, rfl⟩
      · simpa [State.enter] using h.cls
      · simp [State.enter]
      · simpa [State.enter] using h.list
  | initialValue hscope hcls =>
      obtain ⟨value, -, rfl⟩ := map_eq_ok.1 hr
      exact ⟨(h.set_cls hcls).enter (by simp [hscope, Scope.fits]) (by decide), .leaf, rfl⟩
  | primitive hscope hcls hfield | classRef hscope hcls hfield =>
      obtain ⟨type, -, hr⟩ := bind_eq_ok.1 hr
      split at hr <;> cases hr
      exact ⟨(h.set_field hfield).enter (by simp [hscope, Scope.fits]) (by decide), .leaf, rfl⟩
  | list hscope hcls hfield =>
      split at hr
      · cases hr
      · obtain ⟨l, hl, rfl⟩ := map_eq_ok.1 hr
        refine ⟨h.declareList hscope hcls hfield (counted_of_beginList hl), .list, ?_⟩
        simp only [State.enter, State.declareList]
        split
        · rfl
        · split <;> rfl
  | primitiveElement hscope hcls hfield hlist | classElement hscope hcls hfield hlist =>
      obtain ⟨type, -, hr⟩ := bind_eq_ok.1 hr
      split at hr <;> cases hr
      exact ⟨(h.set_element hlist).enter (by simp [hscope, Scope.fits]) (by decide), .leaf, rfl⟩
  | misplaced => cases hr
  | unknown hscope hkeyword hne =>
      cases hr
      exact ⟨h.enter (by simp [hscope, Scope.fits, hne]) (by decide), .ignored, rfl⟩
  | @passedOver _ _ _ scope hscope hskipped =>
      cases hr
      have hne : scope ≠ .root := by
        rintro rfl
        cases hskipped
      exact ⟨h.enter (by simp [hscope, Scope.fits, hne]) (by decide), .ignored, rfl⟩

theorem aligned_stop (h : s.Aligned) {name : String} {line : Nat} {r : Except LoadError State}
    (hstep : Step s (.stop name line) r) {t : State} (hr : r = .ok t) :
    t.Aligned ∧ ∃ scope, s.scopes = scope :: t.scopes := by
  obtain ⟨hnested, hclasses, hfields, hlists, hcounted⟩ := h
  cases hstep with
  | @endClass _ _ c scopes hscope hcls =>
      rw [hscope] at hnested hfields hlists
      cases nested_cls hnested
      cases hregistry : s.loaded.schema.registry.insert? c with
      | none =>
          rw [hregistry] at hr
          cases hr
      | some registry =>
          rw [hregistry] at hr
          cases hr
          exact ⟨⟨hnested.2, by simp, by simpa using hfields, by simpa using hlists, hcounted⟩, .cls,
            hscope⟩
  | @endField _ _ c f scopes hscope hcls hfield =>
      rw [hscope] at hnested hclasses hlists
      cases nested_field hnested
      split at hr <;> cases hr
      exact ⟨⟨hnested.2, by simp, by simp, by simpa using hlists, hcounted⟩, .field, hscope⟩
  | @endList _ _ c f l scopes hscope hcls hfield hlist =>
      rw [hscope] at hnested hclasses
      cases nested_list hnested
      cases helement : l.element with
      | none =>
          rw [helement] at hr
          cases hr
      | some element =>
          rw [helement] at hr
          cases hr
          refine ⟨⟨hnested.2, by simpa using hclasses, by simp, by simp, ?_⟩, .list, hscope⟩
          rintro _ ⟨⟩
  | endOther hscope hother =>
      cases hr
      rw [hscope] at hnested hclasses hfields hlists
      refine ⟨⟨hnested.2, ?_, ?_, ?_, hcounted⟩, _, hscope⟩
      · simpa [hother.1.symm] using hclasses
      · simpa [hother.2.1.symm] using hfields
      · simpa [hother.2.2.symm] using hlists

end Steps

section Runs

variable {root : Node} {es es' : List Event}

theorem openAfter_pos {name : String} {line : Nat} (h : root.events = es ++ .stop name line :: es') :
    0 < Markup.openAfter 0 es := by
  apply Markup.lt_openAfter root h _ (List.cons_ne_nil _ es')
  rintro rfl
  cases root with
  | mk => cases h

/-- After any of the events of a document all is aligned, with one scope for each open element. -/
theorem aligned_run (h : root.events = es ++ es') {s : State} (hrun : run {} es = .ok s) :
    s.Aligned ∧ s.scopes.length = Markup.openAfter 0 es := by
  induction es using List.reverseRecOn generalizing es' s with
  | nil =>
      cases hrun
      exact ⟨State.aligned_empty, rfl⟩
  | append_singleton es e ih =>
      rw [List.append_assoc, List.singleton_append] at h
      rw [run, List.foldlM_append] at hrun
      obtain ⟨t, ht, hrun⟩ := bind_eq_ok.1 hrun
      replace hrun : step t e = .ok s := (bind_pure _).symm.trans hrun
      obtain ⟨haligned, hlength⟩ := ih h ht
      rw [Markup.openAfter_append, ← hlength]
      cases e with
      | start name attributes line =>
          obtain ⟨hs, scope, hscopes⟩ :=
            aligned_start haligned (step_start haligned name attributes line) hrun
          exact ⟨hs, by rw [hscopes]; rfl⟩
      | stop name line =>
          have hopen : t.scopes ≠ [] := List.length_pos_iff.1 (hlength ▸ openAfter_pos h)
          obtain ⟨hs, scope, hscopes⟩ :=
            aligned_stop haligned (step_stop haligned hopen name line) hrun
          exact ⟨hs, by rw [hscopes]; rfl⟩

theorem step_run {e : Event} (h : root.events = es ++ e :: es') {s : State}
    (hrun : run {} es = .ok s) : Step s e (step s e) := by
  obtain ⟨haligned, hlength⟩ := aligned_run h hrun
  cases e with
  | start name attributes line => exact step_start haligned name attributes line
  | stop name line =>
      have hopen : s.scopes ≠ [] := List.length_pos_iff.1 (hlength ▸ openAfter_pos h)
      exact step_stop haligned hopen name line

end Runs

end Reader

end WireSchema
