import Mathlib.Data.List.Induction
import WireSchema.Proofs.Markup.Node
import WireSchema.Schema.Reader

namespace WireSchema

open Markup (Node)

open Outcome

namespace Markup.Node

def tag (n : Node) : Reader.StartTag :=
  ⟨n.name, n.attributes, n.line⟩

def keyword? (n : Node) : Option Reader.Keyword :=
  Reader.Keyword.ofName? n.name

def is (k : Reader.Keyword) (n : Node) : Bool :=
  n.keyword? == some k

def isKnown (n : Node) : Bool :=
  n.keyword?.isSome

end Markup.Node

namespace Reader

def single {α : Type} (line : Nat) (className field : String) (done : Option α) (new : α) :
    Except LoadError (Option α) :=
  if done.isSome then .error (.multipleTypes line className field) else .ok (some new)

def misplaced {α : Type} (context : Keyword) (done : α) (n : Node) : Except LoadError α :=
  match n.keyword? with
  | some _ => .error (.unexpectedElement n.line n.name context.name)
  | none => .ok done

def readElement (className field : String) (done : Option ElementType) (n : Node) :
    Except LoadError (Option ElementType) :=
  match n.keyword? with
  | some .primitive => do
    let typeName ← primitiveName n.tag
    single n.line className field done (.primitive typeName)
  | some .classRef => do
    let name ← referredClass n.tag
    single n.line className field done (.ofClass name)
  | _ => misplaced .list done n

def readList (className field : String) (n : Node) : Except LoadError FieldType := do
  let l ← beginList n.tag
  match ← n.children.foldlM (readElement className field) none with
  | none => .error (.missingType n.endLine className field)
  | some element => .ok (l.type element)

def readType (className field : String) (done : Option FieldType) (n : Node) :
    Except LoadError (Option FieldType) :=
  match n.keyword? with
  | some .primitive => do
    let typeName ← primitiveName n.tag
    single n.line className field done (.primitive typeName (n.tag.get? "defaultValue") none)
  | some .classRef => do
    let name ← referredClass n.tag
    single n.line className field done (.classRef name)
  | some .list =>
    if done.isSome then .error (.multipleTypes n.line className field)
    else some <$> readList className field n
  | _ => misplaced .field done n

def readField (className : String) (n : Node) : Except LoadError Field := do
  let f ← beginField n.tag
  match ← n.children.foldlM (readType className f.field.name) none with
  | none => .error (.missingType f.line className f.field.name)
  | some type => .ok { f.field with type }

structure Declared where
  cls : ClassDef
  warnings : List Diagnostic

def Declared.link (d : Declared) (field : String) : Option String → Declared
  | none => d
  | some countField =>
    match linkCount? countField d.cls.fields.length d.cls.fields with
    | some fields => { d with cls.fields := fields }
    | none =>
      { d with warnings := d.warnings ++ [⟨d.cls.name, some field, .countNotEarlier countField⟩] }

def countField? : FieldType → Option String
  | .variableList _ countField _ => some countField
  | _ => none

theorem countField?_eq_some {type : FieldType} {n : String} :
    countField? type = some n ↔ ∃ element text, type = .variableList element n text := by
  cases type <;> simp [countField?]

def Declared.addField (d : Declared) (f : Field) : Declared :=
  let linked := d.link f.name (countField? f.type)
  { linked with cls.fields := linked.cls.fields ++ [f] }

def readMember (d : Declared) (n : Node) : Except LoadError Declared :=
  match n.keyword? with
  | some .field => d.addField <$> readField d.cls.name n
  | some .initialValue => do
    let value ← initialValue n.tag
    return { d with cls.initial := d.cls.initial ++ [value] }
  | _ => misplaced .cls d n

def readClass (n : Node) : Except LoadError Declared := do
  let c ← beginClass n.tag
  n.children.foldlM readMember ⟨c, []⟩

def mergeSettings (backends : Dictionary Settings) (n : Node) : Dictionary Settings :=
  let key := Text.lowerAscii n.name
  backends.insert key (((backends.get? key).getD .empty).insertAll n.attributes)

def readEntry (loaded : Loaded) (n : Node) : Except LoadError Loaded :=
  let schema := loaded.schema
  match n.keyword? with
  | some .cls => do
    let d ← readClass n
    match schema.registry.insert? d.cls with
    | none => .error (.duplicateClass n.endLine d.cls.name)
    | some registry => .ok ⟨{ schema with registry }, loaded.warnings ++ d.warnings⟩
  | _ => .ok { loaded with schema.backends := mergeSettings schema.backends n }

end Reader

def Schema.readTree (root : Node) : Except LoadError Loaded :=
  root.children.foldlM Reader.readEntry {}

/-- A field as it is declared, without the list that it counts. -/
def Field.unlinked (f : Field) : Field :=
  match f.type with
  | .primitive typeName default _ => { f with type := .primitive typeName default none }
  | _ => f

namespace Markup.Node

def text? (n : Node) (key : String) : Option String :=
  ((n.attributes.lookup key).map Text.trim).filter (· ≠ "")

def flag? (n : Node) (key : String) : Option Bool :=
  match n.attributes.lookup key with
  | none => some false
  | some value =>
    if Text.lowerAscii (Text.trim value) = "true" then some true
    else if Text.lowerAscii (Text.trim value) = "false" then some false
    else none

def listLength (n : Node) : Nat :=
  match n.attributes.lookup "length" with
  | none => 0
  | some value => (Text.unsigned? 10 64 (Text.trim value).toList).getD 0

end Markup.Node

theorem Dictionary.get?_insert {α : Type} (d : Dictionary α) (key other : String) (value : α) :
    (d.insert key value).get? other = if other = key then some value else d.get? other := by
  rw [get?, get?, insert]
  induction d.entries with
  | nil => by_cases h : other = key <;> simp [insertEntry, List.lookup_cons, beq_eq_false_iff_ne.2, h]
  | cons entry rest ih =>
      obtain ⟨k, v⟩ := entry
      by_cases hlt : key < k
      · by_cases h : other = key <;>
          simp [insertEntry, hlt, List.lookup_cons, beq_eq_false_iff_ne.2, h]
      · by_cases hk : key = k
        · subst hk
          by_cases h : other = key <;>
            simp [insertEntry, List.lookup_cons, beq_eq_false_iff_ne.2, h]
        · by_cases h : other = k
          · subst h
            simp [insertEntry, hlt, hk, Ne.symm hk]
          · simp [insertEntry, hlt, hk, List.lookup_cons, beq_eq_false_iff_ne.2 h, ih]

theorem Settings.get?_insertAll (pairs : List (String × String)) (s : Settings) (key : String) :
    (s.insertAll pairs).get? key = (pairs.reverse.lookup key).or (s.get? key) := by
  induction pairs generalizing s with
  | nil => rfl
  | cons pair pairs ih =>
      obtain ⟨k, v⟩ := pair
      change (Settings.insertAll (s.insert k v) pairs).get? key = _
      rw [ih, Dictionary.get?_insert, List.reverse_cons, List.lookup_append, Option.or_assoc]
      by_cases h : key = k
      · simp [h]
      · simp [List.lookup_cons, beq_eq_false_iff_ne.2 h, h]

namespace Reader

inductive ElementOf : Node → ElementType → Prop
  | primitive {n : Node} {name : String} (keyword : n.keyword? = some .primitive)
      (type : n.text? "type" = some name) : ElementOf n (.primitive name)
  | classRef {n : Node} {name : String} (keyword : n.keyword? = some .classRef)
      (referred : n.text? "name" = some name) : ElementOf n (.ofClass name)

/-- A list has one element that says what its elements are. -/
inductive TypeOf : Node → FieldType → Prop
  | primitive {n : Node} {name : String} (keyword : n.keyword? = some .primitive)
      (type : n.text? "type" = some name) :
      TypeOf n (.primitive name (n.attributes.lookup "defaultValue") none)
  | classRef {n : Node} {name : String} (keyword : n.keyword? = some .classRef)
      (referred : n.text? "name" = some name) : TypeOf n (.classRef name)
  | fixedList {n m : Node} {e : ElementType} {text : Bool} (keyword : n.keyword? = some .list)
      (kind : n.text? "type" = some "fixed") (isText : n.flag? "couldBeString" = some text)
      (one : n.children.filter Node.isKnown = [m]) (element : ElementOf m e) :
      TypeOf n (.fixedList e n.listLength text)
  | variableList {n m : Node} {e : ElementType} {text : Bool} {countField : String}
      (keyword : n.keyword? = some .list) (kind : n.text? "type" = some "variable")
      (isText : n.flag? "couldBeString" = some text)
      (count : n.text? "countFieldName" = some countField)
      (one : n.children.filter Node.isKnown = [m]) (element : ElementOf m e) :
      TypeOf n (.variableList e countField text)

structure FieldOf (n : Node) (f : Field) : Prop where
  name : n.text? "name" = some f.name
  comment : f.comment = n.attributes.lookup "comment"
  type : ∃ m, n.children.filter Node.isKnown = [m] ∧ TypeOf m f.type

structure InitialValueOf (n : Node) (v : InitialValue) : Prop where
  field : n.text? "name" = some v.field
  value : n.text? "value" = some v.value

/-- A class has the fields and the initial values that the elements in it say, in their order. -/
structure ClassOf (n : Node) (c : ClassDef) : Prop where
  name : n.text? "name" = some c.name
  parent : c.parent = (n.attributes.lookup "inheritsFrom").getD "root"
  comment : c.comment = n.attributes.lookup "comment"
  root : n.flag? "xmlRootElement" = some c.root
  fields : List.Forall₂ FieldOf (n.children.filter (Node.is .field)) (c.fields.map Field.unlinked)
  initial : List.Forall₂ InitialValueOf (n.children.filter (Node.is .initialValue)) c.initial

/-- The settings that blocks give together. Where several say something, the last one counts. -/
structure SettingsOf (blocks : List Node) (settings : Option Settings) : Prop where
  given : settings.isSome ↔ blocks ≠ []
  last : ∀ s, settings = some s → ∀ key,
    s.get? key = (blocks.flatMap Node.attributes).reverse.lookup key

theorem required_eq_ok {n : Node} {element key value : String} :
    n.tag.required element key = .ok value ↔ n.text? key = some value := by
  have hget : n.tag.get? key = n.attributes.lookup key := rfl
  rw [StartTag.required, hget, Node.text?]
  cases hkey : (n.attributes.lookup key).map Text.trim with
  | none => simp
  | some v =>
      by_cases hv : v = ""
      · simp [hv]
      · simp [hv, Option.filter_some]

theorem boolean_eq_ok {n : Node} {key : String} {value : Bool} :
    n.tag.boolean key = .ok value ↔ n.flag? key = some value := by
  have hget : n.tag.get? key = n.attributes.lookup key := rfl
  have htrue : Text.lowerAscii "true" = "true" := by decide
  have hfalse : Text.lowerAscii "false" = "false" := by decide
  rw [StartTag.boolean, hget, Node.flag?]
  cases n.attributes.lookup key with
  | none => simp
  | some v =>
      simp only [Option.map_some, Text.sameKeyword, beq_iff_eq, htrue, hfalse]
      split
      · simp
      · split <;> simp

theorem listLength_tag (n : Node) : Reader.listLength n.tag = n.listLength := by
  have hget : n.tag.get? "length" = n.attributes.lookup "length" := rfl
  rw [Reader.listLength, hget, Node.listLength]
  cases n.attributes.lookup "length" with
  | none => rfl
  | some value => simp only [Option.bind_some, Text.trim, String.toList_ofList]

section Declarations

variable {n : Node} {ns : List Node} {className field : String}

theorem classes_of_insert? {r r' : Registry} {c : ClassDef} (h : r.insert? c = some r') :
    r'.classes = r.classes ++ [c] := by
  rw [Registry.insert?] at h
  split at h
  · cases h
  · cases h
    rfl

theorem fields_of_beginClass {tag : StartTag} {c : ClassDef} (h : beginClass tag = .ok c) :
    c.fields = [] := by
  obtain ⟨name, -, h⟩ := bind_eq_ok.1 h
  obtain ⟨root, -, h⟩ := bind_eq_ok.1 h
  cases h
  rfl

theorem linkCount?_eq_some {n : String} {k : Nat} {fs gs : List Field}
    (h : linkCount? n k fs = some gs) : ∃ i f typeName default counts,
      fs.findIdx? (·.name == n) = some i ∧ fs[i]? = some f ∧ f.name = n ∧
      f.type = .primitive typeName default counts ∧
      gs = fs.set i { f with type := .primitive typeName default (some k) } := by
  induction fs generalizing gs with
  | nil => simp [linkCount?] at h
  | cons f fs ih =>
      rw [linkCount?] at h
      split at h
      next hname =>
        split at h
        next typeName default counts htype =>
          cases h
          exact ⟨0, f, typeName, default, counts, by simp [List.findIdx?_cons, hname], rfl, hname,
            htype, rfl⟩
        next => cases h
      next hname =>
        obtain ⟨gs', hgs, rfl⟩ := Option.map_eq_some_iff.1 h
        obtain ⟨i, g, typeName, default, counts, hi, hg, hn, htype, rfl⟩ := ih hgs
        exact ⟨i + 1, g, typeName, default, counts, by simp [List.findIdx?_cons, hname, hi], hg, hn,
          htype, rfl⟩

theorem isKnown_eq_false : n.isKnown = false ↔ n.keyword? = none := by
  simp [Node.isKnown]

/-- If what declares something is read once and nothing else is looked at, one element declares what
has been read. -/
theorem exists_of_foldlM {α : Type} {R : Node → α → Prop}
    {read : Option α → Node → Except LoadError (Option α)}
    (hunknown : ∀ done n, n.keyword? = none → read done n = .ok done)
    (hknown : ∀ {done n x}, n.isKnown → read done n = .ok x → done = none ∧ ∃ y, x = some y ∧ R n y)
    {done : Option α} {x : α} (h : ns.foldlM read done = .ok (some x)) :
    (done = some x ∧ ns.filter Node.isKnown = []) ∨
      (done = none ∧ ∃ m, ns.filter Node.isKnown = [m] ∧ R m x) := by
  induction ns generalizing done with
  | nil =>
      cases h
      exact .inl ⟨rfl, rfl⟩
  | cons n ns ih =>
      rw [List.foldlM_cons] at h
      obtain ⟨done', hn, h⟩ := bind_eq_ok.1 h
      by_cases hk : n.isKnown = true
      · obtain ⟨rfl, y, rfl, hy⟩ := hknown hk hn
        rcases ih h with ⟨heq, hnil⟩ | ⟨hnone, -⟩
        · cases heq
          exact .inr ⟨rfl, n, by simp [hk, hnil], hy⟩
        · cases hnone
      · rw [Bool.not_eq_true] at hk
        rw [hunknown done n (isKnown_eq_false.1 hk)] at hn
        cases hn
        simpa [hk] using ih h

theorem single_eq_ok {α : Type} {line : Nat} {done x : Option α} {new : α}
    (h : single line className field done new = .ok x) : done = none ∧ x = some new := by
  cases done with
  | none =>
      cases h
      exact ⟨rfl, rfl⟩
  | some y => cases h

theorem eq_of_misplaced {α : Type} {context : Keyword} {done x : α}
    (h : misplaced context done n = .ok x) : x = done := by
  rw [misplaced] at h
  split at h <;> cases h
  rfl

theorem misplaced_known {α : Type} {context : Keyword} {done x : α} (hn : n.isKnown)
    (h : misplaced context done n = .ok x) : False := by
  rw [misplaced] at h
  split at h
  next => cases h
  next hk => simp [Node.isKnown, hk] at hn

theorem elementOf_readElement {done x : Option ElementType} (hn : n.isKnown)
    (h : readElement className field done n = .ok x) :
    done = none ∧ ∃ e, x = some e ∧ ElementOf n e := by
  rw [readElement] at h
  split at h
  next hk =>
    obtain ⟨name, hname, h⟩ := bind_eq_ok.1 h
    obtain ⟨rfl, rfl⟩ := single_eq_ok h
    exact ⟨rfl, _, rfl, .primitive hk (required_eq_ok.1 hname)⟩
  next hk =>
    obtain ⟨name, hname, h⟩ := bind_eq_ok.1 h
    obtain ⟨rfl, rfl⟩ := single_eq_ok h
    exact ⟨rfl, _, rfl, .classRef hk (required_eq_ok.1 hname)⟩
  next => exact (misplaced_known hn h).elim

theorem readElement_unknown (done : Option ElementType) (n : Node) (hn : n.keyword? = none) :
    readElement className field done n = .ok done := by
  simp only [readElement, misplaced, hn]

theorem typeOf_beginList {m : Node} {l : ListCursor} {e : ElementType}
    (hk : n.keyword? = some .list) (hl : beginList n.tag = .ok l)
    (hone : n.children.filter Node.isKnown = [m]) (hm : ElementOf m e) : TypeOf n (l.type e) := by
  obtain ⟨kind, hkind, hl⟩ := bind_eq_ok.1 hl
  rw [required_eq_ok] at hkind
  split at hl
  next =>
    obtain ⟨isVariable, hvariable, hl⟩ := bind_eq_ok.1 hl
    obtain ⟨text, htext, hl⟩ := bind_eq_ok.1 hl
    cases hvariable
    cases hl
    have htype := TypeOf.fixedList hk hkind (boolean_eq_ok.1 htext) hone hm
    rwa [← listLength_tag] at htype
  next =>
    obtain ⟨isVariable, hvariable, hl⟩ := bind_eq_ok.1 hl
    obtain ⟨text, htext, hl⟩ := bind_eq_ok.1 hl
    cases hvariable
    obtain ⟨countField, hcount, hl⟩ := bind_eq_ok.1 hl
    cases hl
    exact .variableList hk hkind (boolean_eq_ok.1 htext) (required_eq_ok.1 hcount) hone hm
  next => cases hl

theorem typeOf_readList {type : FieldType} (hk : n.keyword? = some .list)
    (h : readList className field n = .ok type) : TypeOf n type := by
  obtain ⟨l, hl, h⟩ := bind_eq_ok.1 h
  obtain ⟨element, helement, h⟩ := bind_eq_ok.1 h
  cases element with
  | none => cases h
  | some e =>
      cases h
      rcases exists_of_foldlM readElement_unknown elementOf_readElement helement with
        ⟨heq, -⟩ | ⟨-, m, hone, hm⟩
      · cases heq
      · exact typeOf_beginList hk hl hone hm

theorem typeOf_readType {done x : Option FieldType} (hn : n.isKnown)
    (h : readType className field done n = .ok x) : done = none ∧ ∃ t, x = some t ∧ TypeOf n t := by
  rw [readType] at h
  split at h
  next hk =>
    obtain ⟨name, hname, h⟩ := bind_eq_ok.1 h
    obtain ⟨rfl, rfl⟩ := single_eq_ok h
    exact ⟨rfl, _, rfl, .primitive hk (required_eq_ok.1 hname)⟩
  next hk =>
    obtain ⟨name, hname, h⟩ := bind_eq_ok.1 h
    obtain ⟨rfl, rfl⟩ := single_eq_ok h
    exact ⟨rfl, _, rfl, .classRef hk (required_eq_ok.1 hname)⟩
  next hk =>
    split at h
    next => cases h
    next hdone =>
      obtain ⟨type, htype, rfl⟩ := map_eq_ok.1 h
      exact ⟨by simpa using hdone, type, rfl, typeOf_readList hk htype⟩
  next => exact (misplaced_known hn h).elim

theorem readType_unknown (done : Option FieldType) (n : Node) (hn : n.keyword? = none) :
    readType className field done n = .ok done := by
  simp only [readType, misplaced, hn]

theorem fieldOf_readField {f : Field} (h : readField className n = .ok f) : FieldOf n f := by
  obtain ⟨draft, hdraft, h⟩ := bind_eq_ok.1 h
  obtain ⟨type, htype, h⟩ := bind_eq_ok.1 h
  cases type with
  | none => cases h
  | some type =>
      cases h
      rcases exists_of_foldlM readType_unknown typeOf_readType htype with ⟨heq, -⟩ | ⟨-, m, hone, hm⟩
      · cases heq
      · obtain ⟨name, hname, hdraft⟩ := bind_eq_ok.1 hdraft
        cases hdraft
        exact ⟨required_eq_ok.1 hname, rfl, m, hone, hm⟩

theorem unlinked_of_typeOf {type : FieldType} (h : TypeOf n type) (name : String)
    (comment : Option String) : Field.unlinked ⟨name, comment, type⟩ = ⟨name, comment, type⟩ := by
  cases h <;> rfl

theorem map_unlinked_linkCount? {countField : String} {k : Nat} {fs gs : List Field}
    (h : linkCount? countField k fs = some gs) : gs.map Field.unlinked = fs.map Field.unlinked := by
  obtain ⟨i, f, typeName, default, counts, -, hf, -, htype, rfl⟩ := linkCount?_eq_some h
  obtain ⟨hi, rfl⟩ := List.getElem?_eq_some_iff.1 hf
  have hmap : i < (fs.map Field.unlinked).length := by simpa using hi
  have hunlinked : Field.unlinked { fs[i] with type := .primitive typeName default (some k) } =
      (fs.map Field.unlinked)[i] := by
    rw [List.getElem_map]
    simp only [Field.unlinked, htype]
  rw [List.map_set, hunlinked, List.set_getElem_self]

structure Extends (ns : List Node) (c c' : ClassDef) : Prop where
  head : { c' with fields := [], initial := [] } = { c with fields := [], initial := [] }
  fields : ∃ fs, List.Forall₂ FieldOf (ns.filter (Node.is .field)) fs ∧
    c'.fields.map Field.unlinked = c.fields.map Field.unlinked ++ fs
  initial : ∃ vs, List.Forall₂ InitialValueOf (ns.filter (Node.is .initialValue)) vs ∧
    c'.initial = c.initial ++ vs

theorem initialValueOf_of_ok {v : InitialValue} (h : initialValue n.tag = .ok v) :
    InitialValueOf n v := by
  obtain ⟨field, hfield, h⟩ := bind_eq_ok.1 h
  obtain ⟨value, hvalue, h⟩ := bind_eq_ok.1 h
  cases h
  exact ⟨required_eq_ok.1 hfield, required_eq_ok.1 hvalue⟩

theorem filter_is_self {k : Keyword} (h : n.keyword? = some k) : [n].filter (Node.is k) = [n] := by
  simp [Node.is, h]

theorem filter_is_nil {k : Keyword} (h : n.keyword? ≠ some k) : [n].filter (Node.is k) = [] := by
  simp [Node.is, h]

theorem Extends.append {ns' : List Node} {c c₁ c₂ : ClassDef} (h : Extends ns c c₁)
    (h' : Extends ns' c₁ c₂) : Extends (ns ++ ns') c c₂ := by
  obtain ⟨hhead, ⟨fs, hfs, hfields⟩, vs, hvs, hinitial⟩ := h
  obtain ⟨hhead', ⟨fs', hfs', hfields'⟩, vs', hvs', hinitial'⟩ := h'
  refine ⟨hhead'.trans hhead, ⟨fs ++ fs', ?_, ?_⟩, vs ++ vs', ?_, ?_⟩
  · rw [List.filter_append]
    exact List.rel_append hfs hfs'
  · rw [hfields', hfields, List.append_assoc]
  · rw [List.filter_append]
    exact List.rel_append hvs hvs'
  · rw [hinitial', hinitial, List.append_assoc]

theorem exists_addField (d : Declared) (f : Field) : ∃ fields,
    fields.map Field.unlinked = d.cls.fields.map Field.unlinked ∧
      (d.addField f).cls = { d.cls with fields := fields ++ [f] } := by
  rw [Declared.addField]
  cases countField? f.type with
  | none => exact ⟨d.cls.fields, rfl, rfl⟩
  | some countField =>
      rw [Declared.link]
      cases h : linkCount? countField d.cls.fields.length d.cls.fields with
      | none => exact ⟨d.cls.fields, rfl, rfl⟩
      | some fields => exact ⟨fields, map_unlinked_linkCount? h, rfl⟩

theorem extends_addField {d : Declared} {f : Field} (hk : n.keyword? = some .field)
    (hf : FieldOf n f) : Extends [n] d.cls (d.addField f).cls := by
  have hunlinked : f.unlinked = f := by
    obtain ⟨m, -, htype⟩ := hf.type
    exact unlinked_of_typeOf htype f.name f.comment
  obtain ⟨fields, hfields, hcls⟩ := exists_addField d f
  rw [hcls]
  refine ⟨rfl, ⟨[f], ?_, ?_⟩, [], ?_, by simp⟩
  · rw [filter_is_self hk]
    exact .cons hf .nil
  · simp [hfields, hunlinked]
  · rw [filter_is_nil (by simp [hk])]
    exact .nil

theorem extends_readMember {d d' : Declared} (h : readMember d n = .ok d') :
    Extends [n] d.cls d'.cls := by
  rw [readMember] at h
  split at h
  next hk =>
    obtain ⟨f, hf, rfl⟩ := map_eq_ok.1 h
    exact extends_addField hk (fieldOf_readField hf)
  next hk =>
    obtain ⟨v, hv, h⟩ := bind_eq_ok.1 h
    cases h
    refine ⟨rfl, ⟨[], ?_, by simp⟩, [v], ?_, rfl⟩
    · rw [filter_is_nil (by simp [hk])]
      exact .nil
    · rw [filter_is_self hk]
      exact .cons (initialValueOf_of_ok hv) .nil
  next hfield hinitial =>
    rw [eq_of_misplaced h]
    refine ⟨rfl, ⟨[], ?_, by simp⟩, [], ?_, by simp⟩
    · rw [filter_is_nil hfield]
      exact .nil
    · rw [filter_is_nil hinitial]
      exact .nil

theorem extends_foldlM {d d' : Declared} (h : ns.foldlM readMember d = .ok d') :
    Extends ns d.cls d'.cls := by
  induction ns generalizing d with
  | nil =>
      cases h
      exact ⟨rfl, ⟨[], .nil, by simp⟩, [], .nil, by simp⟩
  | cons n ns ih =>
      rw [List.foldlM_cons] at h
      obtain ⟨d₁, hn, h⟩ := bind_eq_ok.1 h
      exact (extends_readMember hn).append (ih h)

theorem classOf_readClass {d : Declared} (h : readClass n = .ok d) : ClassOf n d.cls := by
  obtain ⟨c, hc, h⟩ := bind_eq_ok.1 h
  obtain ⟨hhead, ⟨fs, hfs, hfields⟩, vs, hvs, hinitial⟩ := extends_foldlM h
  obtain ⟨name, hname, hbegin⟩ := bind_eq_ok.1 hc
  obtain ⟨root, hroot, hbegin⟩ := bind_eq_ok.1 hbegin
  cases hbegin
  simp only [ClassDef.mk.injEq] at hhead
  obtain ⟨hclass, hparent, hcomment, hflag, -⟩ := hhead
  refine ⟨?_, hparent, hcomment, ?_, ?_, ?_⟩
  · rw [hclass]
    exact required_eq_ok.1 hname
  · rw [hflag]
    exact boolean_eq_ok.1 hroot
  · rw [hfields]
    exact hfs
  · rw [hinitial]
    exact hvs

def blocksOf (key : String) (ns : List Node) : List Node :=
  ns.filter fun n => Text.lowerAscii n.name == key

theorem settingsOf_mergeSettings {done : List Node} {backends : Dictionary Settings}
    (h : ∀ key, SettingsOf (blocksOf key done) (backends.get? key)) (n : Node) (key : String) :
    SettingsOf (blocksOf key (done ++ [n])) ((mergeSettings backends n).get? key) := by
  rw [mergeSettings, Dictionary.get?_insert, blocksOf, List.filter_append]
  by_cases hkey : key = Text.lowerAscii n.name
  · subst hkey
    obtain ⟨hgiven, hlast⟩ := h (Text.lowerAscii n.name)
    rw [if_pos rfl]
    refine ⟨by simp, fun s hs key => ?_⟩
    obtain rfl := Option.some.inj hs
    rw [Settings.get?_insertAll]
    cases hold : backends.get? (Text.lowerAscii n.name) with
    | none =>
        rw [hold] at hgiven
        have hnil : blocksOf (Text.lowerAscii n.name) done = [] := by simpa using hgiven
        rw [blocksOf] at hnil
        simp [hnil, Dictionary.get?, Dictionary.empty]
    | some s =>
        rw [Option.getD_some, hlast s hold key, blocksOf]
        simp [List.lookup_append]
  · rw [if_neg hkey]
    have hnil : [n].filter (fun n => Text.lowerAscii n.name == key) = [] := by
      simpa using Ne.symm hkey
    rw [hnil, List.append_nil]
    exact h key

theorem settingsOf_foldl (ns : List Node) (key : String) :
    SettingsOf (blocksOf key ns) ((ns.foldl mergeSettings .empty).get? key) := by
  induction ns using List.reverseRecOn generalizing key with
  | nil => exact ⟨by simp [blocksOf, Dictionary.get?, Dictionary.empty], fun s hs => nomatch hs⟩
  | append_singleton ns n ih =>
      rw [List.foldl_append]
      exact settingsOf_mergeSettings ih n key

theorem entries_of_foldlM {loaded loaded' : Loaded} (h : ns.foldlM readEntry loaded = .ok loaded') :
    (∃ cs, List.Forall₂ ClassOf (ns.filter (Node.is .cls)) cs ∧
      loaded'.schema.registry.classes = loaded.schema.registry.classes ++ cs) ∧
    loaded'.schema.backends =
      (ns.filter (!Node.is .cls ·)).foldl mergeSettings loaded.schema.backends := by
  induction ns generalizing loaded with
  | nil =>
      cases h
      exact ⟨⟨[], .nil, by simp⟩, rfl⟩
  | cons n ns ih =>
      rw [List.foldlM_cons] at h
      obtain ⟨next, hn, h⟩ := bind_eq_ok.1 h
      obtain ⟨⟨cs, hcs, hclasses⟩, hbackends⟩ := ih h
      simp only [readEntry] at hn
      split at hn
      next hk =>
        have his : n.is .cls = true := by simp [Node.is, hk]
        obtain ⟨d, hd, hn⟩ := bind_eq_ok.1 hn
        split at hn
        next => cases hn
        next registry hregistry =>
          cases hn
          refine ⟨⟨d.cls :: cs, ?_, ?_⟩, ?_⟩
          · rw [List.filter_cons_of_pos his]
            exact .cons (classOf_readClass hd) hcs
          · rw [hclasses, classes_of_insert? hregistry, List.append_assoc]
            rfl
          · rw [List.filter_cons_of_neg (by simp [his])]
            exact hbackends
      next hk =>
        have his : n.is .cls = false := by simpa [Node.is] using hk
        cases hn
        refine ⟨⟨cs, ?_, hclasses⟩, ?_⟩
        · rw [List.filter_cons_of_neg (by simp [his])]
          exact hcs
        · rw [List.filter_cons_of_pos (by simp [his])]
          exact hbackends

end Declarations

end Reader

namespace Markup.Node

def withChildren (n : Node) (children : List Node) : Node :=
  .mk n.name n.attributes n.line children n.endLine

def bare (n : Node) : Node :=
  n.withChildren []

def keeping (prune : Node → Node) (n : Node) : Node :=
  n.withChildren ((n.children.filter isKnown).map prune)

def prunedUnless (k : Reader.Keyword) (prune : Node → Node) (n : Node) : Node :=
  if n.is k then n.keeping prune else n.bare

def prunedType : Node → Node :=
  prunedUnless .list bare

def prunedMember : Node → Node :=
  prunedUnless .field prunedType

def prunedEntry : Node → Node :=
  prunedUnless .cls prunedMember

/-- A document without all that is inside a block of settings, a primitive, a class reference, an
initial value or an unknown element, and without the unknown elements of classes. -/
def pruned (n : Node) : Node :=
  n.withChildren (n.children.map prunedEntry)

end Markup.Node

namespace Reader

variable {className field : String}

theorem foldlM_keeping {α : Type} {read : α → Node → Except LoadError α} (prune : Node → Node)
    (hunknown : ∀ a n, n.keyword? = none → read a n = .ok a)
    (hprune : ∀ a n, read a (prune n) = read a n) (n : Node) (a : α) :
    (n.keeping prune).children.foldlM read a = n.children.foldlM read a := by
  change ((n.children.filter Node.isKnown).map prune).foldlM read a = _
  induction n.children generalizing a with
  | nil => rfl
  | cons m ns ih =>
      by_cases hk : m.isKnown = true
      · rw [List.filter_cons_of_pos hk, List.map_cons, List.foldlM_cons, List.foldlM_cons, hprune]
        exact bind_congr ih
      · rw [List.filter_cons_of_neg hk, ih, List.foldlM_cons,
          hunknown a m (isKnown_eq_false.1 (by simpa using hk)), ok_bind]

theorem apply_prunedUnless {α : Type} {read : Node → α} {k : Keyword} {prune : Node → Node}
    {n : Node} (hkeeping : n.keyword? = some k → read (n.keeping prune) = read n)
    (hbare : n.keyword? ≠ some k → read n.bare = read n) :
    read (n.prunedUnless k prune) = read n := by
  rw [Node.prunedUnless]
  split
  next his => exact hkeeping (by simpa [Node.is] using his)
  next his => exact hbare (by simpa [Node.is] using his)

theorem readList_keeping (n : Node) :
    readList className field (n.keeping Node.bare) = readList className field n := by
  simp only [readList, foldlM_keeping Node.bare readElement_unknown (fun _ _ => rfl) n]
  rfl

theorem readType_pruned (done : Option FieldType) (n : Node) :
    readType className field done n.prunedType = readType className field done n := by
  apply apply_prunedUnless
  · intro hk
    have hk' : (n.keeping Node.bare).keyword? = some .list := hk
    simp only [readType, hk, hk', readList_keeping]
    rfl
  · intro hk
    have hk' : n.bare.keyword? = n.keyword? := rfl
    simp only [readType, misplaced, hk']
    split
    next => rfl
    next => rfl
    next h => exact absurd h hk
    next => rfl

theorem readField_keeping (n : Node) :
    readField className (n.keeping Node.prunedType) = readField className n := by
  simp only [readField, foldlM_keeping Node.prunedType readType_unknown readType_pruned n]
  rfl

theorem readMember_pruned (d : Declared) (n : Node) :
    readMember d n.prunedMember = readMember d n := by
  apply apply_prunedUnless
  · intro hk
    have hk' : (n.keeping Node.prunedType).keyword? = some .field := hk
    simp only [readMember, hk, hk', readField_keeping]
  · intro hk
    have hk' : n.bare.keyword? = n.keyword? := rfl
    simp only [readMember, misplaced, hk']
    split
    next h => exact absurd h hk
    next => rfl
    next => rfl

theorem readMember_unknown (d : Declared) (n : Node) (hn : n.keyword? = none) :
    readMember d n = .ok d := by
  simp only [readMember, misplaced, hn]

theorem readClass_keeping (n : Node) : readClass (n.keeping Node.prunedMember) = readClass n := by
  simp only [readClass, foldlM_keeping Node.prunedMember readMember_unknown readMember_pruned n]
  rfl

theorem readEntry_pruned (loaded : Loaded) (n : Node) :
    readEntry loaded n.prunedEntry = readEntry loaded n := by
  apply apply_prunedUnless
  · intro hk
    have hk' : (n.keeping Node.prunedMember).keyword? = some .cls := hk
    simp only [readEntry, hk, hk', readClass_keeping]
    rfl
  · intro hk
    have hk' : n.bare.keyword? = n.keyword? := rfl
    simp only [readEntry, hk']
    rfl

end Reader

theorem Schema.readTree_pruned (root : Node) : readTree root.pruned = readTree root := by
  change (root.children.map Node.prunedEntry).foldlM Reader.readEntry {} = _
  rw [List.foldlM_map]
  simp only [Reader.readEntry_pruned]
  rfl

end WireSchema
