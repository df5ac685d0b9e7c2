import WireSchema.Proofs.Schema.Cursors
import WireSchema.Proofs.Schema.Tree

namespace WireSchema

open Markup (Node Event)

open Outcome

namespace Reader

theorem run_append (s : State) (es es' : List Event) :
    run s (es ++ es') = run s es >>= fun t => run t es' :=
  List.foldlM_append

theorem run_events (s : State) (n : Node) : run s n.events =
    start s n.tag >>= fun t => run t (Node.eventsAll n.children) >>= fun u => stop u n.endLine := by
  cases n with
  | mk name attributes line children endLine =>
      rw [Node.events, run, List.foldlM_cons]
      refine bind_congr fun t => ?_
      change run t _ = _
      rw [run_append]
      refine bind_congr fun u => ?_
      change (stop u endLine >>= pure) = _
      exact bind_pure _

theorem run_children {α : Type} {place : α → State} {read : α → Node → Except LoadError α}
    (h : ∀ a n, run (place a) n.events = place <$> read a n) (ns : List Node) (a : α) :
    run (place a) (Node.eventsAll ns) = place <$> ns.foldlM read a := by
  induction ns generalizing a with
  | nil => rfl
  | cons n ns ih =>
      rw [Node.eventsAll, run_append, h, List.foldlM_cons]
      cases read a n with
      | error e => rfl
      | ok b => exact ih b

section Skipped

variable (scope : Scope) (h : scope.isSkipped = true)

include h

theorem start_skipped (s : State) (tag : StartTag) :
    start (s.enter scope) tag = .ok ((s.enter scope).enter .ignored) := by
  cases scope with
  | backend | leaf | ignored => rfl
  | root | cls | field | list => cases h

theorem stop_skipped (s : State) (line : Nat) : stop (s.enter scope) line = .ok s := by
  cases scope with
  | backend | leaf | ignored => rfl
  | root | cls | field | list => cases h

end Skipped

mutual

theorem run_skipped (n : Node) (s : State) (scope : Scope) (h : scope.isSkipped = true) :
    run (s.enter scope) n.events = .ok (s.enter scope) := by
  cases n with
  | mk name attributes line children endLine =>
      rw [run_events, start_skipped scope h, ok_bind]
      change run _ (Node.eventsAll children) >>= _ = _
      rw [runAll_skipped children (s.enter scope) .ignored rfl, ok_bind,
        stop_skipped .ignored rfl]

theorem runAll_skipped (ns : List Node) (s : State) (scope : Scope) (h : scope.isSkipped = true) :
    run (s.enter scope) (Node.eventsAll ns) = .ok (s.enter scope) := by
  cases ns with
  | nil => rfl
  | cons n ns =>
      rw [Node.eventsAll, run_append, run_skipped n s scope h, ok_bind, runAll_skipped ns s scope h]

end

theorem run_leaf {s : State} {n : Node} {x : Except LoadError State} (scope : Scope)
    (hscope : scope.isSkipped = true) (h : start s n.tag = (·.enter scope) <$> x) :
    run s n.events = x := by
  rw [run_events, h]
  cases x with
  | error e => rfl
  | ok t =>
      change run (t.enter scope) (Node.eventsAll n.children) >>= _ = _
      rw [runAll_skipped n.children t scope hscope, ok_bind, stop_skipped scope hscope]

def documentState (loaded : Loaded) : State where
  loaded
  scopes := [.root]

def Declared.state (d : Declared) (loaded : Loaded) : State where
  loaded := { loaded with warnings := loaded.warnings ++ d.warnings }
  scopes := [.cls, .root]
  cls := some d.cls

def Declared.within (d : Declared) (loaded : Loaded) (f : FieldCursor) : State :=
  { d.state loaded with scopes := [.field, .cls, .root], field := some f }

def Declared.fieldState (d : Declared) (loaded : Loaded) (f : FieldCursor)
    (type : Option FieldType) : State :=
  (d.link f.field.name (type.bind countField?)).within loaded
    ⟨{ f.field with type := type.getD f.field.type }, type.isSome, f.line⟩

def Declared.listState (d : Declared) (loaded : Loaded) (f : FieldCursor) (l : ListCursor)
    (element : Option ElementType) : State :=
  { (d.link f.field.name l.countField).within loaded { f with hasType := true } with
    scopes := [.list, .field, .cls, .root]
    list := some { l with element } }

variable (d : Declared) (loaded : Loaded) (f : FieldCursor) (l : ListCursor)

theorem name_link (field : String) (countField : Option String) :
    (d.link field countField).cls.name = d.cls.name := by
  cases countField with
  | none => rfl
  | some n =>
      rw [Declared.link]
      cases linkCount? n d.cls.fields.length d.cls.fields <;> rfl

structure ListCursor.Fresh (l : ListCursor) : Prop where
  element : l.element = none
  countField : l.countField.isSome = l.isVariable

theorem fresh_of_beginList {tag : StartTag} {l : ListCursor} (h : beginList tag = .ok l) :
    l.Fresh := by
  obtain ⟨type, -, h⟩ := bind_eq_ok.1 h
  split at h
  all_goals
    obtain ⟨isVariable, -, h⟩ := bind_eq_ok.1 h
    obtain ⟨text, -, h⟩ := bind_eq_ok.1 h
    split at h
    · obtain ⟨countField, -, h⟩ := bind_eq_ok.1 h
      cases h
      exact ⟨rfl, rfl⟩
    · cases h
      exact ⟨rfl, rfl⟩

theorem countField?_type {l : ListCursor} (hl : l.Fresh) (element : ElementType) :
    Reader.countField? (l.type element) = l.countField := by
  have hvariable := hl.countField
  rw [ListCursor.type, ← hvariable]
  cases l.countField <;> rfl

theorem link_within (n : String) :
    link (d.within loaded f) n = (d.link f.field.name (some n)).within loaded f := by
  simp only [link, Declared.within, Declared.state, Declared.link]
  cases linkCount? n d.cls.fields.length d.cls.fields with
  | some fields => rfl
  | none => simp [State.className, State.fieldName]

theorem start_list {n : Node} (hk : n.keyword? = some .list) :
    start (d.fieldState loaded f none) n.tag =
      (fun l => d.listState loaded f l none) <$> beginList n.tag := by
  have hkeyword : Keyword.ofName? n.tag.name = some .list := hk
  have hstart : start (d.within loaded { f with hasType := false }) n.tag =
      (·.enter .list) <$> openList (d.within loaded { f with hasType := false }) n.tag := by
    simp only [start, Declared.within, List.head?_cons, hkeyword]
    cases openList _ n.tag <;> rfl
  change start (d.within loaded { f with hasType := false }) n.tag = _
  rw [hstart, openList, if_neg (by simp [Declared.within])]
  cases hl : beginList n.tag with
  | error e => rfl
  | ok l =>
      obtain ⟨isVariable, length, countField, text, element⟩ := l
      obtain rfl : element = none := (fresh_of_beginList hl).element
      cases countField with
      | none => rfl
      | some n =>
          simp only [ok_bind, Option.elim_some, link_within]
          rfl

theorem run_element (done : Option ElementType) (n : Node) :
    run (d.listState loaded f l done) n.events =
      d.listState loaded f l <$> readElement d.cls.name f.field.name done n := by
  have hkeyword : Keyword.ofName? n.tag.name = n.keyword? := rfl
  have hhead : (d.listState loaded f l done).scopes.head? = some .list := rfl
  have hset (element : ElementType) : setElement (d.listState loaded f l done) n.tag element =
      d.listState loaded f l <$> single n.line d.cls.name f.field.name done element := by
    have hname : (d.listState loaded f l done).className = d.cls.name :=
      name_link d f.field.name l.countField
    rw [setElement, State.multipleTypes, hname]
    cases done <;> rfl
  cases hk : n.keyword? with
  | none =>
      apply run_leaf .ignored rfl
      simp only [start, hhead, hkeyword, hk, readElement, misplaced]
      rfl
  | some k =>
      cases k with
      | primitive =>
          apply run_leaf .leaf rfl
          simp only [start, hhead, hkeyword, hk, readElement]
          cases primitiveName n.tag with
          | error e => rfl
          | ok name =>
              simp only [ok_bind, hset]
              cases done <;> rfl
      | classRef =>
          apply run_leaf .leaf rfl
          simp only [start, hhead, hkeyword, hk, readElement]
          cases referredClass n.tag with
          | error e => rfl
          | ok name =>
              simp only [ok_bind, hset]
              cases done <;> rfl
      | cls | field | list | initialValue =>
          apply run_leaf .ignored rfl
          simp only [start, hhead, hkeyword, hk, readElement, misplaced]
          rfl

theorem stop_list {l : ListCursor} (hl : l.Fresh) (element : Option ElementType) (line : Nat) :
    stop (d.listState loaded f l element) line =
      element.elim (.error (.missingType line d.cls.name f.field.name)) fun element =>
        .ok (d.fieldState loaded f (some (l.type element))) := by
  cases element with
  | none =>
      rw [← name_link d f.field.name l.countField]
      rfl
  | some element =>
      simp only [Declared.fieldState, Option.bind_some, countField?_type hl]
      rfl

theorem run_list {n : Node} (hk : n.keyword? = some .list) :
    run (d.fieldState loaded f none) n.events =
      (fun type => d.fieldState loaded f (some type)) <$> readList d.cls.name f.field.name n := by
  rw [run_events, start_list d loaded f hk, readList]
  cases hl : beginList n.tag with
  | error e => rfl
  | ok l =>
      change run (d.listState loaded f l none) _ >>= _ = _
      rw [run_children (run_element d loaded f l), ok_bind]
      cases n.children.foldlM (readElement d.cls.name f.field.name) none with
      | error e => rfl
      | ok element =>
          change stop (d.listState loaded f l element) n.endLine = _
          rw [stop_list d loaded f (fresh_of_beginList hl)]
          cases element <;> rfl

theorem className_fieldState (type : Option FieldType) :
    (d.fieldState loaded f type).className = d.cls.name :=
  name_link d f.field.name (type.bind countField?)

theorem setType_fieldState (done : Option FieldType) (line : Nat) {type : FieldType}
    (htype : countField? type = none) : setType (d.fieldState loaded f done) line type =
      d.fieldState loaded f <$> single line d.cls.name f.field.name done type := by
  cases done with
  | none =>
      change Except.ok _ = Except.ok (d.fieldState loaded f (some type))
      simp only [Declared.fieldState, Option.bind_some, htype]
      rfl
  | some old =>
      rw [← className_fieldState d loaded f (some old)]
      rfl

theorem run_type (done : Option FieldType) (n : Node) : run (d.fieldState loaded f done) n.events =
    d.fieldState loaded f <$> readType d.cls.name f.field.name done n := by
  have hkeyword : Keyword.ofName? n.tag.name = n.keyword? := rfl
  have hhead : (d.fieldState loaded f done).scopes.head? = some .field := rfl
  cases hk : n.keyword? with
  | none =>
      apply run_leaf .ignored rfl
      simp only [start, hhead, hkeyword, hk, readType, misplaced]
      rfl
  | some k =>
      cases k with
      | primitive =>
          apply run_leaf .leaf rfl
          simp only [start, hhead, hkeyword, hk, readType]
          cases primitiveName n.tag with
          | error e => rfl
          | ok name =>
              simp only [ok_bind]
              rw [setType_fieldState d loaded f done n.tag.line rfl]
              cases done <;> rfl
      | classRef =>
          apply run_leaf .leaf rfl
          simp only [start, hhead, hkeyword, hk, readType]
          cases referredClass n.tag with
          | error e => rfl
          | ok name =>
              simp only [ok_bind]
              rw [setType_fieldState d loaded f done n.tag.line rfl]
              cases done <;> rfl
      | list =>
          cases done with
          | none =>
              rw [run_list d loaded f hk, readType, hk]
              cases readList d.cls.name f.field.name n <;> rfl
          | some type =>
              apply run_leaf .leaf rfl
              simp only [start, hhead, hkeyword, hk, readType, openList, State.multipleTypes,
                className_fieldState]
              rfl
      | cls | field | initialValue =>
          apply run_leaf .ignored rfl
          simp only [start, hhead, hkeyword, hk, readType, misplaced]
          rfl

theorem stop_field (type : Option FieldType) (line : Nat) : stop (d.fieldState loaded f type) line =
    type.elim (.error (.missingType f.line d.cls.name f.field.name)) fun type =>
      .ok ((d.addField { f.field with type }).state loaded) := by
  cases type <;> rfl

theorem run_field {n : Node} (hk : n.keyword? = some .field) :
    run (d.state loaded) n.events =
      (fun f => (d.addField f).state loaded) <$> readField d.cls.name n := by
  have hkeyword : Keyword.ofName? n.tag.name = some .field := hk
  have hstart : start (d.state loaded) n.tag = (d.within loaded ·) <$> beginField n.tag := by
    simp only [start, Declared.state, List.head?_cons, hkeyword]
    cases beginField n.tag <;> rfl
  rw [run_events, hstart, readField]
  cases hf : beginField n.tag with
  | error e => rfl
  | ok f =>
      have hopen : d.within loaded f = d.fieldState loaded f none := by
        obtain ⟨name, -, hf⟩ := bind_eq_ok.1 hf
        cases hf
        rfl
      change run (d.within loaded f) _ >>= _ = _
      rw [hopen, run_children (run_type d loaded f), ok_bind]
      cases n.children.foldlM (readType d.cls.name f.field.name) none with
      | error e => rfl
      | ok type =>
          change stop (d.fieldState loaded f type) n.endLine = _
          rw [stop_field]
          cases type <;> rfl

theorem run_member (n : Node) : run (d.state loaded) n.events =
    (fun d => d.state loaded) <$> readMember d n := by
  have hkeyword : Keyword.ofName? n.tag.name = n.keyword? := rfl
  have hhead : (d.state loaded).scopes.head? = some .cls := rfl
  cases hk : n.keyword? with
  | none =>
      apply run_leaf .ignored rfl
      simp only [start, hhead, hkeyword, hk, readMember, misplaced]
      rfl
  | some k =>
      cases k with
      | field =>
          rw [run_field d loaded hk, readMember, hk]
          cases readField d.cls.name n <;> rfl
      | initialValue =>
          apply run_leaf .leaf rfl
          simp only [start, hhead, hkeyword, hk, readMember]
          cases initialValue n.tag <;> rfl
      | cls | primitive | classRef | list =>
          apply run_leaf .ignored rfl
          simp only [start, hhead, hkeyword, hk, readMember, misplaced]
          rfl

theorem run_class {n : Node} (hk : n.keyword? = some .cls) :
    run (documentState loaded) n.events =
      readClass n >>= fun d => stop (d.state loaded) n.endLine := by
  have hkeyword : Keyword.ofName? n.tag.name = some .cls := hk
  have hstart : start (documentState loaded) n.tag =
      (fun c => Declared.state ⟨c, []⟩ loaded) <$> beginClass n.tag := by
    simp only [start, documentState, List.head?_cons, hkeyword, Declared.state, List.append_nil]
    cases beginClass n.tag <;> rfl
  rw [run_events, hstart, readClass]
  cases beginClass n.tag with
  | error e => rfl
  | ok c =>
      change run (Declared.state ⟨c, []⟩ loaded) _ >>= _ = _
      rw [run_children (fun d n => run_member d loaded n), ok_bind]
      cases n.children.foldlM readMember ⟨c, []⟩ <;> rfl

theorem run_entry (n : Node) : run (documentState loaded) n.events =
    documentState <$> readEntry loaded n := by
  by_cases hclass : n.keyword? = some .cls
  · rw [run_class loaded hclass, readEntry, hclass]
    cases readClass n with
    | error e => rfl
    | ok d =>
        simp only [ok_bind, stop, Declared.state, closeClass]
        cases loaded.schema.registry.insert? d.cls <;> rfl
  have hkeyword : Keyword.ofName? n.tag.name = n.keyword? := rfl
  apply run_leaf .backend rfl
  simp only [start, documentState, List.head?_cons, hkeyword, readEntry]
  cases hk : n.keyword? with
  | none => rfl
  | some k =>
      cases k with
      | cls => exact absurd hk hclass
      | field | primitive | classRef | list | initialValue => rfl

theorem run_root (root : Node) : run {} root.events =
    (fun loaded => ({ loaded } : State)) <$> Schema.readTree root := by
  rw [run_events]
  change run (documentState {}) (Node.eventsAll root.children) >>= _ = _
  rw [run_children run_entry, Schema.readTree]
  cases root.children.foldlM readEntry {} <;> rfl

end Reader

namespace Schema

variable {source : String}

theorem read_of_tree? {root : Node} (h : Markup.tree? source = some root) :
    Schema.read source = Schema.readTree root := by
  have hrun : root.events.foldlM Reader.step {} =
      (fun loaded => ({ loaded } : Reader.State)) <$> Schema.readTree root := Reader.run_root root
  rw [Schema.read, Markup.walk_eq, Markup.trace_of_tree? h]
  cases hread : Schema.readTree root with
  | ok loaded =>
      rw [hread] at hrun
      simp only [Markup.walkEvents_of_ok none hrun]
      rfl
  | error e =>
      rw [hread] at hrun
      simp only [Markup.stop_walkEvents none hrun]

theorem exists_tree_of_read {loaded : Loaded} (h : Schema.read source = .ok loaded) :
    ∃ root, Markup.tree? source = some root ∧ readTree root = .ok loaded := by
  cases herror : (Markup.trace source).error with
  | none =>
      obtain ⟨root, hroot⟩ := Markup.exists_tree herror
      exact ⟨root, hroot, (read_of_tree? hroot).symm.trans h⟩
  | some e =>
      simp only [Schema.read, Markup.walk_eq, herror] at h
      split at h
      next hstop => exact absurd hstop (Markup.stop_walkEvents_some _ _ e _)
      next => cases h
      next => cases h

end Schema

/-- Reading a schema event by event is the recursive reading of the tree of its document, with the
same schema and warnings or the same error. The classes are those of the `class` elements of the
document, in order, each with the fields and initial values in it; all other elements of the document
are merged into the settings of the backends, and nothing inside what is pruned is of any effect. No
event of the document is without the class, the field or the list that it needs. -/
theorem Schema.read_eq_readTree {source : String} (h : (Markup.trace source).error = none) :
    ∃ root, Markup.tree? source = some root ∧ Schema.read source = Schema.readTree root ∧
      Schema.readTree root.pruned = Schema.readTree root ∧
      (∀ loaded, Schema.readTree root = .ok loaded →
        List.Forall₂ Reader.ClassOf (root.children.filter (Node.is .cls))
          loaded.schema.registry.classes ∧
        ∀ key, Reader.SettingsOf (Reader.blocksOf key (root.children.filter (!Node.is .cls ·)))
          (loaded.schema.backends.get? key)) ∧
      ∀ es e es' s, root.events = es ++ e :: es' → Reader.run {} es = .ok s →
        s.scopes.length = Markup.openAfter 0 es ∧ Reader.Step s e (Reader.step s e) := by
  obtain ⟨root, hroot⟩ := Markup.exists_tree h
  refine ⟨root, hroot, Schema.read_of_tree? hroot, Schema.readTree_pruned root, ?_, ?_⟩
  · intro loaded hread
    obtain ⟨⟨cs, hcs, hclasses⟩, hbackends⟩ := Reader.entries_of_foldlM hread
    rw [hclasses, hbackends]
    exact ⟨hcs, Reader.settingsOf_foldl _⟩
  · intro es e es' s hevents hrun
    exact ⟨(Reader.aligned_run hevents hrun).2, Reader.step_run hevents hrun⟩

def Schema.sampleDocument : String :=
  "<s><CLASS name='A'><attribute name='n'><primitive type='int'/></attribute><attribute name='x'>" ++
  "<list type='variable' countFieldName='n'><classRef name='B'/></list></attribute>" ++
  "<initialValue name='n' value='3'/></CLASS><java p='q' r='1'><class/></java><JAVA r='2'/></s>"

theorem Schema.read_eq_readTree_sample : (Markup.trace Schema.sampleDocument).error = none ∧
    ∃ root loaded settings, Markup.tree? Schema.sampleDocument = some root ∧
      Schema.read Schema.sampleDocument = .ok loaded ∧ Schema.readTree root = .ok loaded ∧
      loaded.schema.registry.classes = [{
        name := "A"
        fields := [⟨"n", none, .primitive "int" none (some 1)⟩,
          ⟨"x", none, .variableList (.ofClass "B") "n" false⟩]
        initial := [⟨"n", "3"⟩] }] ∧
      List.Forall₂ Reader.ClassOf (root.children.filter (Node.is .cls))
        loaded.schema.registry.classes ∧
      loaded.schema.backends.get? "java" = some settings ∧
      settings.get? "p" = some "q" ∧ settings.get? "r" = some "2" ∧
      Reader.SettingsOf (Reader.blocksOf "java" (root.children.filter (!Node.is .cls ·)))
        (some settings) ∧
      ∀ es e es' s, root.events = es ++ e :: es' → Reader.run {} es = .ok s →
        Reader.Step s e (Reader.step s e) := by
  have hread : (Schema.read Schema.sampleDocument).map (fun loaded =>
      (loaded.schema.registry.classes,
        (loaded.schema.backends.get? "java").map Dictionary.entries)) = .ok ([{
          name := "A"
          fields := [⟨"n", none, .primitive "int" none (some 1)⟩,
            ⟨"x", none, .variableList (.ofClass "B") "n" false⟩]
          initial := [⟨"n", "3"⟩] }], some [("p", "q"), ("r", "2")]) := by
    decide +kernel
  obtain ⟨loaded, hloaded, hall⟩ := map_eq_ok.1 hread
  obtain ⟨hclasses, hentries⟩ := Prod.mk.inj hall
  obtain ⟨settings, hget, hentries⟩ := Option.map_eq_some_iff.1 hentries
  obtain ⟨root, hroot, hread⟩ := Schema.exists_tree_of_read hloaded
  have htrace : (Markup.trace Schema.sampleDocument).error = none := by
    rw [Markup.trace_of_tree? hroot]
  obtain ⟨root', hroot', -, -, hof, hsteps⟩ := Schema.read_eq_readTree htrace
  cases hroot.symm.trans hroot'
  obtain ⟨hdeclared, hblocks⟩ := hof loaded hread
  refine ⟨htrace, root, loaded, settings, hroot, hloaded, hread, hclasses, hdeclared, hget, ?_, ?_,
    hget ▸ hblocks "java", fun es e es' s hevents hrun => (hsteps es e es' s hevents hrun).2⟩
  · rw [Dictionary.get?, hentries]
    rfl
  · rw [Dictionary.get?, hentries]
    rfl

end WireSchema
