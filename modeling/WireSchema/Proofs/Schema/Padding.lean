import WireSchema.Proofs.Markup.Padding
import WireSchema.Proofs.Schema.CountFields
import WireSchema.Schema.Validation

namespace WireSchema

open Outcome Markup

namespace Reader

def Keyword.nameAttributes : Keyword → List String
  | cls => ["name", "inheritsFrom"]
  | field | classRef | initialValue => ["name"]
  | primitive => ["type"]
  | list => ["type", "countFieldName"]

/-- Whether an attribute carries a name, given the number of elements around its own one, the name of
its element and its name. An element of the document other than a class holds settings, whatever it
is called. -/
def CarriesName (depth : Nat) (element name : String) : Prop :=
  ∃ k, Keyword.ofName? element = some k ∧ name ∈ k.nameAttributes ∧ (depth = 1 → k = .cls)

end Reader

def Markup.Padding.NamesOnly (p : Padding) : Prop :=
  ∀ depth element name, p.allows depth element name → Reader.CarriesName depth element name

def Markup.Padding.OnParents (p : Padding) : Prop :=
  ∃ depth element, p.allows depth element "inheritsFrom"

namespace LoadError

def bare : LoadError → LoadError
  | markup error => markup error.bare
  | unexpectedElement _ element context => unexpectedElement 0 element context
  | missingAttribute _ element name => missingAttribute 0 element name
  | duplicateClass _ name => duplicateClass 0 name
  | missingType _ className field => missingType 0 className field
  | multipleTypes _ className field => multipleTypes 0 className field
  | unknownListType _ value => unknownListType 0 value
  | notBoolean _ name value => notBoolean 0 name value

def line? : LoadError → Option Nat
  | markup error => error.line?
  | unexpectedElement line _ _ | missingAttribute line _ _ | duplicateClass line _
  | missingType line _ _ | multipleTypes line _ _ | unknownListType line _
  | notBoolean line _ _ => some line

structure Alike (p : Padding) (e e' : LoadError) : Prop where
  bare : e'.bare = e.bare
  line : p.breaks ∨ e'.line? = e.line?

end LoadError

structure ClassDef.Padded (p : Padding) (c c' : ClassDef) : Prop where
  same : c' = { c with parent := c'.parent }
  parent : c'.parent = c.parent ∨ p.OnParents ∧ Text.Padded c.parent.toList c'.parent.toList

theorem ClassDef.Padded.name_eq {p : Padding} {c c' : ClassDef} (h : c.Padded p c') :
    c'.name = c.name := by
  rw [h.same]

theorem ClassDef.Padded.fields_eq {p : Padding} {c c' : ClassDef} (h : c.Padded p c') :
    c'.fields = c.fields := by
  rw [h.same]

structure Loaded.Padded (p : Padding) (l l' : Loaded) : Prop where
  classes : List.Forall₂ (ClassDef.Padded p) l.schema.registry.classes l'.schema.registry.classes
  backends : l'.schema.backends = l.schema.backends
  warnings : l'.warnings = l.warnings

namespace Reader

variable {p : Padding}

structure StartTag.Padded (p : Padding) (depth : Nat) (tag tag' : StartTag) : Prop where
  name : tag'.name = tag.name
  attributes : List.Forall₂ (PaddedValue p depth tag.name) tag.attributes tag'.attributes
  line : p.SameLine tag.line tag'.line

inductive FieldCursor.Padded (p : Padding) : FieldCursor → FieldCursor → Prop
  | mk {field : Field} {hasType : Bool} {line line' : Nat} (sameLine : p.SameLine line line') :
      FieldCursor.Padded p ⟨field, hasType, line⟩ ⟨field, hasType, line'⟩

section Tags

variable {depth : Nat} {tag tag' : StartTag}

theorem get?_padded (h : tag.Padded p depth tag') (name : String) :
    Option.Rel (fun v v' => v' = v ∨
        p.allows depth tag.name name ∧ Text.Padded v.toList v'.toList)
      (tag.get? name) (tag'.get? name) := by
  rw [StartTag.get?, StartTag.get?]
  have hall := h.attributes
  generalize tag.attributes = as at hall
  generalize tag'.attributes = as' at hall
  induction hall with
  | nil => exact .none
  | @cons x x' as as' hx _ ih =>
      rw [List.lookup_cons, List.lookup_cons, hx.name]
      split
      next heq =>
        obtain rfl := eq_of_beq heq
        exact .some hx.value
      next => exact ih

theorem get?_eq (h : tag.Padded p depth tag') {name : String}
    (hname : ¬p.allows depth tag.name name) : tag'.get? name = tag.get? name := by
  have hget := get?_padded h name
  generalize tag.get? name = x at hget
  generalize tag'.get? name = x' at hget
  cases hget with
  | none => rfl
  | some hv => rw [hv.resolve_right fun hallows => hname hallows.1]

theorem map_trim_get? (h : tag.Padded p depth tag') (name : String) :
    (tag'.get? name).map Text.trim = (tag.get? name).map Text.trim := by
  have hget := get?_padded h name
  generalize tag.get? name = x at hget
  generalize tag'.get? name = x' at hget
  cases hget with
  | none => rfl
  | @some v v' hv =>
      rcases hv with rfl | ⟨-, hpadded⟩
      · rfl
      · exact congrArg some (congrArg String.ofList hpadded.trimChars_eq)

theorem required_padded (h : tag.Padded p depth tag') (element name : String) :
    Related (LoadError.Alike p) Eq (tag.required element name) (tag'.required element name) := by
  simp only [StartTag.required, map_trim_get? h name]
  split
  next => exact .error ⟨rfl, h.line.imp_right (congrArg some)⟩
  next => exact .error ⟨rfl, h.line.imp_right (congrArg some)⟩
  next => exact .ok rfl

theorem boolean_padded (h : tag.Padded p depth tag') (name : String) :
    Related (LoadError.Alike p) Eq (tag.boolean name) (tag'.boolean name) := by
  simp only [StartTag.boolean, map_trim_get? h name]
  split
  next => exact .ok rfl
  next =>
    split
    next => exact .ok rfl
    next =>
      split
      next => exact .ok rfl
      next => exact .error ⟨rfl, h.line.imp_right (congrArg some)⟩

theorem listLength_padded (h : tag.Padded p depth tag') : listLength tag' = listLength tag := by
  have hget := get?_padded h "length"
  rw [listLength, listLength]
  generalize tag.get? "length" = x at hget
  generalize tag'.get? "length" = x' at hget
  cases hget with
  | none => rfl
  | @some v v' hv =>
      rcases hv with rfl | ⟨-, hpadded⟩
      · rfl
      · rw [Option.bind_some, Option.bind_some, hpadded.trimChars_eq]

theorem get?_other (hp : p.NamesOnly) (h : tag.Padded p depth tag') (name : String)
    (hname : ∀ k : Keyword, name ∉ k.nameAttributes) : tag'.get? name = tag.get? name := by
  apply get?_eq h
  intro hallows
  obtain ⟨k, -, hmem, -⟩ := hp _ _ _ hallows
  exact hname k hmem

theorem beginClass_padded (hp : p.NamesOnly) (h : tag.Padded p depth tag') :
    Related (LoadError.Alike p) (ClassDef.Padded p) (beginClass tag) (beginClass tag') := by
  apply (required_padded h "class" "name").bind
  rintro name _ rfl
  apply (boolean_padded h "xmlRootElement").bind
  rintro root _ rfl
  refine .ok ⟨?_, ?_⟩
  · rw [get?_other hp h "comment" (by rintro ⟨⟩ <;> decide)]
  · have hget := get?_padded h "inheritsFrom"
    generalize tag.get? "inheritsFrom" = x at hget
    generalize tag'.get? "inheritsFrom" = x' at hget
    cases hget with
    | none => exact .inl rfl
    | some hv => exact hv.imp_right (And.imp_left fun hallows => ⟨_, _, hallows⟩)

theorem beginField_padded (hp : p.NamesOnly) (h : tag.Padded p depth tag') :
    Related (LoadError.Alike p) (FieldCursor.Padded p) (beginField tag) (beginField tag') := by
  apply (required_padded h "attribute" "name").bind
  rintro name _ rfl
  rw [get?_other hp h "comment" (by rintro ⟨⟩ <;> decide)]
  exact .ok (.mk h.line)

theorem initialValue_padded (h : tag.Padded p depth tag') :
    Related (LoadError.Alike p) Eq (initialValue tag) (initialValue tag') := by
  rw [initialValue, initialValue, h.name]
  apply (required_padded h tag.name "name").bind
  rintro field _ rfl
  apply (required_padded h tag.name "value").bind
  rintro value _ rfl
  exact .ok rfl

theorem primitiveName_padded (h : tag.Padded p depth tag') :
    Related (LoadError.Alike p) Eq (primitiveName tag) (primitiveName tag') := by
  rw [primitiveName, primitiveName, h.name]
  exact required_padded h tag.name "type"

theorem referredClass_padded (h : tag.Padded p depth tag') :
    Related (LoadError.Alike p) Eq (referredClass tag) (referredClass tag') := by
  rw [referredClass, referredClass, h.name]
  exact required_padded h tag.name "name"

theorem beginList_padded (h : tag.Padded p depth tag') :
    Related (LoadError.Alike p) Eq (beginList tag) (beginList tag') := by
  apply (required_padded h "list" "type").bind
  rintro type _ rfl
  split
  next =>
    apply (boolean_padded h "couldBeString").bind
    rintro text _ rfl
    rw [listLength_padded h]
    exact .ok rfl
  next =>
    apply (boolean_padded h "couldBeString").bind
    rintro text _ rfl
    apply (required_padded h "list" "countFieldName").bind
    rintro countField _ rfl
    exact .ok rfl
  next => exact .error ⟨rfl, h.line.imp_right (congrArg some)⟩

end Tags

structure State.Padded (p : Padding) (s s' : State) : Prop where
  loaded : s.loaded.Padded p s'.loaded
  scopes : s'.scopes = s.scopes
  cls : Option.Rel (ClassDef.Padded p) s.cls s'.cls
  field : Option.Rel (FieldCursor.Padded p) s.field s'.field
  list : s'.list = s.list

section States

variable {s s' : State} {c c' : ClassDef} {line line' : Nat}

theorem State.Padded.enter (h : s.Padded p s') (scope : Scope) :
    (s.enter scope).Padded p (s'.enter scope) :=
  ⟨h.loaded, congrArg (scope :: ·) h.scopes, h.cls, h.field, h.list⟩

theorem className_padded (h : s.Padded p s') : s'.className = s.className := by
  have hcls := h.cls
  rw [State.className, State.className]
  generalize s.cls = x at hcls
  generalize s'.cls = x' at hcls
  cases hcls with
  | none => rfl
  | some hc => exact hc.name_eq

theorem fieldName_padded (h : s.Padded p s') : s'.fieldName = s.fieldName := by
  have hfield := h.field
  rw [State.fieldName, State.fieldName]
  generalize s.field = x at hfield
  generalize s'.field = x' at hfield
  cases hfield with
  | none => rfl
  | some hf =>
      cases hf
      rfl

theorem multipleTypes_padded (h : s.Padded p s') (hline : p.SameLine line line') :
    (s.multipleTypes line).Alike p (s'.multipleTypes line') := by
  rw [State.multipleTypes, State.multipleTypes, className_padded h, fieldName_padded h]
  exact ⟨rfl, hline.imp_right (congrArg some)⟩

theorem setType_padded (h : s.Padded p s') (hline : p.SameLine line line') (type : FieldType) :
    Related (LoadError.Alike p) (State.Padded p) (setType s line type) (setType s' line' type) := by
  have hmultiple := multipleTypes_padded h hline
  have hfield := h.field
  rw [setType, setType]
  generalize s.field = x at hfield
  generalize s'.field = x' at hfield
  cases hfield with
  | none => exact .error ⟨rfl, hline.imp_right (congrArg some)⟩
  | some hf =>
      cases hf with
      | mk sameLine =>
          simp only
          split
          next => exact .error hmultiple
          next => exact .ok ⟨h.loaded, h.scopes, h.cls, .some (.mk sameLine), h.list⟩

theorem link_padded (h : s.Padded p s') (countField : String) :
    (link s countField).Padded p (link s' countField) := by
  have hclass := className_padded h
  have hname := fieldName_padded h
  have hcls := h.cls
  rw [link, link]
  generalize hx : s.cls = x at hcls
  generalize hx' : s'.cls = x' at hcls
  cases hcls with
  | none => exact h
  | @some c c' hc =>
      simp only [hc.fields_eq]
      split
      next fields _ =>
        exact ⟨h.loaded, h.scopes, .some ⟨by rw [hc.same], hc.parent⟩, h.field, h.list⟩
      next =>
        refine ⟨⟨h.loaded.classes, h.loaded.backends, ?_⟩, h.scopes, .some hc, h.field, h.list⟩
        simp only [h.loaded.warnings, hclass, hname]

theorem openList_padded {depth : Nat} {tag tag' : StartTag} (h : s.Padded p s')
    (htag : tag.Padded p depth tag') :
    Related (LoadError.Alike p) (State.Padded p) (openList s tag) (openList s' tag') := by
  have hmultiple := multipleTypes_padded h htag.line
  have htype : s'.field.any (·.hasType) = s.field.any (·.hasType) := by
    have hfield := h.field
    generalize s.field = x at hfield
    generalize s'.field = x' at hfield
    cases hfield with
    | none => rfl
    | some hf =>
        cases hf
        rfl
  rw [openList, openList, htype]
  split
  next => exact .error hmultiple
  next =>
    apply (beginList_padded htag).bind
    rintro l _ rfl
    have hlinked : (l.countField.elim s (link s)).Padded p (l.countField.elim s' (link s')) := by
      cases l.countField with
      | none => exact h
      | some countField => exact link_padded h countField
    refine .ok ⟨hlinked.loaded, hlinked.scopes, hlinked.cls, ?_, rfl⟩
    have hfield := hlinked.field
    generalize (l.countField.elim s (link s)).field = x at hfield
    generalize (l.countField.elim s' (link s')).field = x' at hfield
    cases hfield with
    | none => exact .none
    | some hf =>
        cases hf with
        | mk sameLine => exact .some (.mk sameLine)

theorem setElement_padded {depth : Nat} {tag tag' : StartTag} (h : s.Padded p s')
    (htag : tag.Padded p depth tag') (element : ElementType) :
    Related (LoadError.Alike p) (State.Padded p) (setElement s tag element)
      (setElement s' tag' element) := by
  have hmultiple := multipleTypes_padded h htag.line
  rw [setElement, setElement, h.list, htag.name]
  split
  next => exact .error hmultiple
  next =>
    split
    next => exact .error ⟨rfl, htag.line.imp_right (congrArg some)⟩
    next => exact .ok ⟨h.loaded, h.scopes, h.cls, h.field, rfl⟩

theorem addInitialValue_padded (h : s.Padded p s') (value : InitialValue) :
    (addInitialValue s value).Padded p (addInitialValue s' value) := by
  refine ⟨h.loaded, h.scopes, ?_, h.field, h.list⟩
  have hcls := h.cls
  rw [addInitialValue, addInitialValue]
  generalize s.cls = x at hcls
  generalize s'.cls = x' at hcls
  cases hcls with
  | none => exact .none
  | some hc => exact .some ⟨by rw [hc.same], hc.parent⟩

theorem refuse_padded {depth : Nat} {tag tag' : StartTag} (h : s.Padded p s')
    (htag : tag.Padded p depth tag') (keyword : Option Keyword) (context : Scope) :
    Related (LoadError.Alike p) (State.Padded p) (refuse s keyword context tag)
      (refuse s' keyword context tag') := by
  cases keyword with
  | none => exact .ok (h.enter .ignored)
  | some k =>
      rw [refuse, refuse, htag.name]
      exact .error ⟨rfl, htag.line.imp_right (congrArg some)⟩

theorem attributes_eq (hp : p.NamesOnly) {tag tag' : StartTag} (h : tag.Padded p 1 tag')
    (hkeyword : Keyword.ofName? tag.name ≠ some .cls) : tag'.attributes = tag.attributes := by
  have hall : List.Forall₂ (fun x x' : String × String => x' = x) tag.attributes
      tag'.attributes := by
    apply h.attributes.imp
    rintro ⟨name, value⟩ ⟨name', value'⟩ ⟨hname, hvalue⟩
    rcases hvalue with hvalue | ⟨hallows, -⟩
    · exact Prod.ext hname hvalue
    · obtain ⟨k, hk, -, hcls⟩ := hp _ _ _ hallows
      exact absurd (hcls rfl ▸ hk) hkeyword
  exact List.forall₂_eq_eq_eq ▸ hall.flip

theorem addSettings_padded (hp : p.NamesOnly) {tag tag' : StartTag} (h : s.Padded p s')
    (htag : tag.Padded p 1 tag') (hkeyword : Keyword.ofName? tag.name ≠ some .cls) :
    (addSettings s tag).Padded p (addSettings s' tag') := by
  refine ⟨⟨h.loaded.classes, ?_, h.loaded.warnings⟩, h.scopes, h.cls, h.field, h.list⟩
  simp only [addSettings, Schema.settings, attributes_eq hp htag hkeyword, htag.name,
    h.loaded.backends]

section Starts

variable {tag tag' : StartTag}

theorem start_padded_root (hp : p.NamesOnly) (h : s.Padded p s') (hnested : Nested s.scopes)
    (htag : tag.Padded p s.scopes.length tag') (hscope : s.scopes.head? = some .root) :
    Related (LoadError.Alike p) (State.Padded p) (start s tag) (start s' tag') := by
  have hhead : s'.scopes.head? = some .root := (congrArg List.head? h.scopes).trans hscope
  simp only [start, hscope, hhead, htag.name]
  split
  next =>
    apply (beginClass_padded hp htag).bind
    intro c c' hc
    have hs : State.Padded p { s with cls := some c } { s' with cls := some c' } :=
      ⟨h.loaded, h.scopes, .some hc, h.field, h.list⟩
    exact .ok (hs.enter .cls)
  next hkeyword =>
    -- Only the elements of the document itself hold settings.
    obtain ⟨rest, hrest⟩ := eq_cons_of_head? hscope
    rw [hrest] at hnested htag
    rw [nested_root hnested] at htag
    exact .ok ((addSettings_padded hp h htag hkeyword).enter .backend)

theorem start_padded_cls (hp : p.NamesOnly) (h : s.Padded p s')
    (htag : tag.Padded p s.scopes.length tag') (hscope : s.scopes.head? = some .cls) :
    Related (LoadError.Alike p) (State.Padded p) (start s tag) (start s' tag') := by
  have hhead : s'.scopes.head? = some .cls := (congrArg List.head? h.scopes).trans hscope
  simp only [start, hscope, hhead, htag.name]
  split
  next =>
    apply (beginField_padded hp htag).bind
    intro f f' hf
    have hs : State.Padded p { s with field := some f } { s' with field := some f' } :=
      ⟨h.loaded, h.scopes, h.cls, .some hf, h.list⟩
    exact .ok (hs.enter .field)
  next =>
    apply (initialValue_padded htag).bind
    rintro value _ rfl
    exact .ok ((addInitialValue_padded h value).enter .leaf)
  next => exact refuse_padded h htag _ .cls

theorem start_padded_field (hp : p.NamesOnly) (h : s.Padded p s')
    (htag : tag.Padded p s.scopes.length tag') (hscope : s.scopes.head? = some .field) :
    Related (LoadError.Alike p) (State.Padded p) (start s tag) (start s' tag') := by
  have hhead : s'.scopes.head? = some .field := (congrArg List.head? h.scopes).trans hscope
  simp only [start, hscope, hhead, htag.name]
  split
  next =>
    apply (primitiveName_padded htag).bind
    rintro typeName _ rfl
    rw [get?_other hp htag "defaultValue" (by rintro ⟨⟩ <;> decide)]
    apply (setType_padded h htag.line _).bind
    intro t t' ht
    exact .ok (ht.enter .leaf)
  next =>
    apply (referredClass_padded htag).bind
    rintro name _ rfl
    apply (setType_padded h htag.line _).bind
    intro t t' ht
    exact .ok (ht.enter .leaf)
  next =>
    apply (openList_padded h htag).bind
    intro t t' ht
    exact .ok (ht.enter .list)
  next => exact refuse_padded h htag _ .field

theorem start_padded_list (h : s.Padded p s') (htag : tag.Padded p s.scopes.length tag')
    (hscope : s.scopes.head? = some .list) :
    Related (LoadError.Alike p) (State.Padded p) (start s tag) (start s' tag') := by
  have hhead : s'.scopes.head? = some .list := (congrArg List.head? h.scopes).trans hscope
  simp only [start, hscope, hhead, htag.name]
  split
  next =>
    apply (primitiveName_padded htag).bind
    rintro typeName _ rfl
    apply (setElement_padded h htag _).bind
    intro t t' ht
    exact .ok (ht.enter .leaf)
  next =>
    apply (referredClass_padded htag).bind
    rintro name _ rfl
    apply (setElement_padded h htag _).bind
    intro t t' ht
    exact .ok (ht.enter .leaf)
  next => exact refuse_padded h htag _ .list

theorem start_padded (hp : p.NamesOnly) (h : s.Padded p s') (hnested : Nested s.scopes)
    (htag : tag.Padded p s.scopes.length tag') :
    Related (LoadError.Alike p) (State.Padded p) (start s tag) (start s' tag') := by
  cases hscope : s.scopes.head? with
  | none =>
      have hhead : s'.scopes.head? = none := (congrArg List.head? h.scopes).trans hscope
      simp only [start, hscope, hhead]
      exact .ok (h.enter .root)
  | some scope =>
      cases scope with
      | root => exact start_padded_root hp h hnested htag hscope
      | cls => exact start_padded_cls hp h htag hscope
      | field => exact start_padded_field hp h htag hscope
      | list => exact start_padded_list h htag hscope
      | backend | leaf | ignored =>
          have hhead := (congrArg List.head? h.scopes).trans hscope
          simp only [start, hscope, hhead]
          exact .ok (h.enter .ignored)

end Starts

theorem names_padded {cs cs' : List ClassDef} (h : List.Forall₂ (ClassDef.Padded p) cs cs') :
    cs'.map ClassDef.name = cs.map ClassDef.name := by
  induction h with
  | nil => rfl
  | cons hc _ ih => rw [List.map_cons, List.map_cons, ih, hc.same]

theorem insert?_padded {r r' : Registry}
    (h : List.Forall₂ (ClassDef.Padded p) r.classes r'.classes) (hc : c.Padded p c') :
    Option.Rel (fun t t' : Registry => List.Forall₂ (ClassDef.Padded p) t.classes t'.classes)
      (r.insert? c) (r'.insert? c') := by
  rw [Registry.insert?, Registry.insert?]
  by_cases hmem : c.name ∈ r.classes.map ClassDef.name
  · rw [dif_pos hmem, dif_pos (by rwa [hc.name_eq, names_padded h])]
    exact .none
  · rw [dif_neg hmem, dif_neg (by rwa [hc.name_eq, names_padded h])]
    exact .some (List.rel_append h (.cons hc .nil))

theorem closeClass_padded (h : s.Padded p s') (hline : p.SameLine line line') :
    Related (LoadError.Alike p) (State.Padded p) (closeClass s line) (closeClass s' line') := by
  have hcls := h.cls
  rw [closeClass, closeClass]
  generalize s.cls = x at hcls
  generalize s'.cls = x' at hcls
  cases hcls with
  | none => exact .ok h
  | @some c c' hc =>
      have hinsert := insert?_padded h.loaded.classes hc
      simp only [hc.name_eq]
      generalize s.loaded.schema.registry.insert? c = x at hinsert
      generalize s'.loaded.schema.registry.insert? c' = x' at hinsert
      cases hinsert with
      | none => exact .error ⟨rfl, hline.imp_right (congrArg some)⟩
      | some hclasses =>
          exact .ok ⟨⟨hclasses, h.loaded.backends, h.loaded.warnings⟩, h.scopes, .none, h.field,
            h.list⟩

theorem closeField_padded (h : s.Padded p s') :
    Related (LoadError.Alike p) (State.Padded p) (closeField s) (closeField s') := by
  have hcls := h.cls
  have hfield := h.field
  rw [closeField, closeField]
  generalize s.cls = x at hcls
  generalize s'.cls = x' at hcls
  generalize s.field = y at hfield
  generalize s'.field = y' at hfield
  cases hfield with
  | none => exact .ok h
  | some hf =>
      cases hf with
      | mk sameLine =>
          cases hcls with
          | none => exact .error ⟨rfl, sameLine.imp_right (congrArg some)⟩
          | some hc =>
              simp only [hc.name_eq, hc.fields_eq]
              split
              next =>
                exact .ok ⟨h.loaded, h.scopes, .some ⟨by rw [hc.same], hc.parent⟩, .none, h.list⟩
              next => exact .error ⟨rfl, sameLine.imp_right (congrArg some)⟩

theorem closeList_padded (h : s.Padded p s') (hline : p.SameLine line line') :
    Related (LoadError.Alike p) (State.Padded p) (closeList s line) (closeList s' line') := by
  have hfield := h.field
  rw [closeList, closeList, h.list, className_padded h, fieldName_padded h]
  split
  next => exact .ok h
  next l _ =>
    split
    next => exact .error ⟨rfl, hline.imp_right (congrArg some)⟩
    next element _ =>
      refine .ok ⟨h.loaded, h.scopes, h.cls, ?_, rfl⟩
      generalize s.field = x at hfield
      generalize s'.field = x' at hfield
      cases hfield with
      | none => exact .none
      | some hf =>
          cases hf with
          | mk sameLine => exact .some (.mk sameLine)

theorem stop_padded (h : s.Padded p s') (hline : p.SameLine line line') :
    Related (LoadError.Alike p) (State.Padded p) (stop s line) (stop s' line') := by
  rw [stop, stop, h.scopes]
  split
  next => exact .ok h
  next scope scopes _ =>
    have hs : State.Padded p { s with scopes } { s' with scopes } :=
      ⟨h.loaded, rfl, h.cls, h.field, h.list⟩
    cases scope with
    | cls => exact closeClass_padded hs hline
    | field => exact closeField_padded hs
    | list => exact closeList_padded hs hline
    | root | backend | leaf | ignored => exact .ok hs

theorem keeps_step (hp : p.NamesOnly) : Keeps p (LoadError.Alike p)
    (fun depth s s' => s.Padded p s' ∧ s.Aligned ∧ s.scopes.length = depth) step where
  start := by
    rintro depth s s' name attributes attributes' line line' ⟨hs, haligned, rfl⟩ hattributes hline
    have htag : StartTag.Padded p s.scopes.length ⟨name, attributes, line⟩
        ⟨name, attributes', line'⟩ := ⟨rfl, hattributes, hline⟩
    refine (start_padded hp hs haligned.nested htag).and_left fun t ht => ?_
    obtain ⟨haligned, scope, hscopes⟩ :=
      aligned_start haligned (step_start haligned name attributes line) ht
    exact ⟨haligned, by rw [hscopes, List.length_cons]⟩
  stop := by
    rintro depth s s' name line line' ⟨hs, haligned, hdepth⟩ hline
    refine (stop_padded hs hline).and_left fun t ht => ?_
    have hopen : s.scopes ≠ [] := List.ne_nil_of_length_eq_add_one hdepth
    obtain ⟨haligned, scope, hscopes⟩ :=
      aligned_stop haligned (step_stop haligned hopen name line) ht
    rw [hscopes, List.length_cons] at hdepth
    exact ⟨haligned, Nat.succ.inj hdepth⟩

end States

end Reader

inductive Rejection.Alike (p : Padding) : Rejection → Rejection → Prop
  | unreadable {e e' : LoadError} (errors : e.Alike p e') :
      Rejection.Alike p (.unreadable e) (.unreadable e')
  | invalid {diagnostics : List Diagnostic} :
      Rejection.Alike p (.invalid diagnostics) (.invalid diagnostics)

theorem Loaded.Padded.eq {p : Padding} {l l' : Loaded} (h : l.Padded p l') (hp : ¬p.OnParents) :
    l = l' := by
  have hclasses : List.Forall₂ Eq l.schema.registry.classes l'.schema.registry.classes := by
    refine h.classes.imp fun c c' hc => ?_
    have hparent := hc.parent.resolve_right fun hparents => hp hparents.1
    rw [hc.same, hparent]
  obtain ⟨⟨⟨classes, nodup⟩, backends⟩, warnings⟩ := l
  obtain ⟨⟨⟨classes', nodup'⟩, backends'⟩, warnings'⟩ := l'
  obtain rfl : classes = classes' := by rwa [List.forall₂_eq_eq_eq] at hclasses
  obtain rfl : backends' = backends := h.backends
  obtain rfl : warnings' = warnings := h.warnings
  rfl

namespace Schema

variable {p : Padding} {source source' : String}

theorem related_read (hp : p.NamesOnly) (h : Markup.Padded p source source') :
    Related (LoadError.Alike p) (Loaded.Padded p) (read source) (read source') := by
  have hstart : Reader.State.Padded p {} {} := ⟨⟨.nil, rfl, rfl⟩, rfl, .none, .none, rfl⟩
  have hwalk := walk_padded (Reader.keeps_step hp) h ⟨hstart, Reader.State.aligned_empty, rfl⟩
  simp only [read]
  generalize walk Reader.step {} source = w at hwalk
  generalize walk Reader.step {} source' = w' at hwalk
  cases hwalk with
  | done states => exact .ok states.1.loaded
  | markup errors => exact .error ⟨congrArg LoadError.markup errors.bare, errors.line⟩
  | handler errors => exact .error errors

theorem related_check (h : Related (LoadError.Alike p) Eq (read source) (read source')) :
    Related (Rejection.Alike p) Eq (check source) (check source') := by
  simp only [check]
  generalize read source = x at h
  generalize read source' = x' at h
  cases h with
  | error errors => exact .error (.unreadable errors)
  | ok results =>
      obtain rfl := results
      simp only
      split
      next => exact .error .invalid
      next => exact .ok rfl

theorem parents_of_read {loaded : Loaded} (h : read source = .ok loaded) :
    ∃ root, tree? source = some root ∧ loaded.schema.registry.classes.map ClassDef.parent =
      (root.children.filter (Node.is .cls)).map fun n =>
        (n.tag.get? "inheritsFrom").getD "root" := by
  obtain ⟨root, hroot, htree⟩ := exists_tree_of_read h
  refine ⟨root, hroot, ?_⟩
  have hclasses := forall₂_classOf_of_readTree htree
  generalize root.children.filter (Node.is .cls) = ns at hclasses
  generalize loaded.schema.registry.classes = cs at hclasses
  induction hclasses with
  | nil => rfl
  | @cons n c ns cs hc _ ih =>
      rw [List.map_cons, List.map_cons, ih, hc.parent]
      rfl

/-- Blanks around names make no difference to a schema: both documents are read to the same schema
with the same warnings, and both are accepted or rejected with the same diagnostics, or neither can be
read for the same reason. Only the line of an error can differ, if there are line breaks among the
blanks, and the value that it quotes. This holds as long as no blanks are added to the name of a
parent. With such blanks the schemas still differ in nothing but parents; a parent, however, is what
is written for it, blanks included. -/
theorem read_padded (hp : p.NamesOnly) (h : Markup.Padded p source source') :
    (¬p.OnParents →
      Related (LoadError.Alike p) Eq (read source) (read source') ∧
      Related (Rejection.Alike p) Eq (check source) (check source')) ∧
    Related (LoadError.Alike p) (Loaded.Padded p) (read source) (read source') ∧
    ∀ loaded, read source' = .ok loaded → ∃ root, tree? source' = some root ∧
      loaded.schema.registry.classes.map ClassDef.parent =
        (root.children.filter (Node.is .cls)).map fun n =>
          (n.tag.get? "inheritsFrom").getD "root" := by
  have hread := related_read hp h
  refine ⟨?_, hread, fun loaded hloaded => parents_of_read hloaded⟩
  intro hparents
  have heq : Related (LoadError.Alike p) Eq (read source) (read source') :=
    hread.imp fun hloaded => hloaded.eq hparents
  exact ⟨heq, related_check heq⟩

def sampleTag (name : String) (attributes : List (String × String)) : Tag where
  name := name.toList
  attributes := attributes.map fun x => ⟨[' '], x.1.toList, [], [], .single, x.2.toList⟩
  trail := []

def sampleTokens (name field type parent : String) : List Token :=
  [.start (sampleTag "c" []), .start (sampleTag "class" [("name", name)]),
    .start (sampleTag "attribute" [("name", field)]), .empty (sampleTag "primitive" [("type", type)]),
    .close "attribute".toList [], .close "class".toList [],
    .empty (sampleTag "class" [("name", "B"), ("inheritsFrom", parent)]), .close "c".toList []]

def sampleInheriting (name field type parent : String) : String :=
  String.ofList ((sampleTokens name field type parent).flatMap Token.render)

-- The source is a variable here, so that nothing is evaluated where definitions are unfolded.
theorem check_of_toList {source : String}
    (h : source.toList = (sampleTokens "A" "x" "int" "A").flatMap Token.render) :
    error? (check source) = none := by
  simp only [check, read, walk, parse?, h]
  decide +kernel

theorem check_of_toList_blanks {source : String}
    (h : source.toList = (sampleTokens "A" "x" "int" " A ").flatMap Token.render) :
    error? (check source) = some (.invalid [⟨"B", none, .unknownParent " A "⟩]) := by
  simp only [check, read, walk, parse?, h]
  decide +kernel

theorem exists_read_of_check {source : String} (h : error? (check source) = none) :
    ∃ loaded, read source = .ok loaded := by
  simp only [check] at h
  split at h
  next => cases h
  next loaded hloaded => exact ⟨loaded, hloaded⟩

def SamplePadding (p : Padding) (depth : Nat) (element name v v' : String) : Prop :=
  v' = v ∨ p.allows depth element name ∧ p.Surrounds v.toList v'.toList

theorem samplePadding_of_all {depth : Nat} {element name v v' : String} (front back : List Char)
    (hallows : p.allows depth element name) (hv : v'.toList = front ++ v.toList ++ back)
    (hblank : (front ++ back).all Text.isBlank = true)
    (hbreaks : (front ++ back).contains '\n' = true → p.breaks) :
    SamplePadding p depth element name v v' := by
  refine .inr ⟨hallows, front, back, hv, fun c hc => ⟨List.all_eq_true.1 hblank c hc, ?_⟩⟩
  rintro rfl
  exact hbreaks (List.contains_iff_mem.2 hc)

theorem padded_sampleTag {depth : Nat} {element : String} {xs xs' : List (String × String)}
    (h : List.Forall₂ (fun x x' => x'.1 = x.1 ∧ SamplePadding p depth element x.1 x.2 x'.2) xs xs') :
    (sampleTag element xs).Padded p depth (sampleTag element xs') := by
  refine ⟨rfl, rfl, List.forall₂_map_left_iff.2 (List.forall₂_map_right_iff.2 (h.imp ?_))⟩
  rintro ⟨name, v⟩ ⟨_, v'⟩ ⟨rfl, hv⟩
  refine ⟨rfl, hv.imp (congrArg String.toList) ?_⟩
  rintro ⟨hallows, hsurrounds⟩
  simp only [sampleTag, String.ofList_toList]
  exact ⟨hallows, hsurrounds⟩

theorem padded_sampleInheriting {name field type parent : String}
    (hname : SamplePadding p 1 "class" "name" "A" name)
    (hfield : SamplePadding p 2 "attribute" "name" "x" field)
    (htype : SamplePadding p 3 "primitive" "type" "int" type)
    (hparent : SamplePadding p 1 "class" "inheritsFrom" "A" parent) :
    Markup.Padded p (sampleInheriting "A" "x" "int" "A")
      (sampleInheriting name field type parent) := by
  have htokens : tokens? (sampleInheriting "A" "x" "int" "A").toList =
      some (sampleTokens "A" "x" "int" "A") := by
    rw [sampleInheriting, String.toList_ofList]
    decide +kernel
  refine ⟨_, _, htokens, ?_, rfl⟩
  refine .start (padded_sampleTag .nil) (.start (padded_sampleTag (.cons ⟨rfl, hname⟩ .nil)) ?_)
  refine .start (padded_sampleTag (.cons ⟨rfl, hfield⟩ .nil)) ?_
  refine .empty (padded_sampleTag (.cons ⟨rfl, htype⟩ .nil)) (.close (.close ?_))
  exact .empty (padded_sampleTag (.cons ⟨rfl, .inl rfl⟩ (.cons ⟨rfl, hparent⟩ .nil))) (.close .nil)

def aroundOwnNames : Padding where
  allows depth element name := Reader.CarriesName depth element name ∧ name ≠ "inheritsFrom"
  breaks := True

theorem padded_ownNames : Markup.Padded aroundOwnNames (sampleInheriting "A" "x" "int" "A")
    (sampleInheriting " A\n" "\tx" "int " "A") := by
  have hname : aroundOwnNames.allows 1 "class" "name" :=
    ⟨⟨.cls, rfl, .head _, fun _ => rfl⟩, by decide⟩
  have hfield : aroundOwnNames.allows 2 "attribute" "name" :=
    ⟨⟨.field, rfl, .head _, nofun⟩, by decide⟩
  have htype : aroundOwnNames.allows 3 "primitive" "type" :=
    ⟨⟨.primitive, rfl, .head _, nofun⟩, by decide⟩
  exact padded_sampleInheriting
    (samplePadding_of_all [' '] ['\n'] hname rfl rfl fun _ => trivial)
    (samplePadding_of_all ['\t'] [] hfield rfl rfl fun _ => trivial)
    (samplePadding_of_all [] [' '] htype rfl rfl fun _ => trivial) (.inl rfl)

theorem read_padded_inheriting : aroundOwnNames.NamesOnly ∧ ¬aroundOwnNames.OnParents ∧
    Markup.Padded aroundOwnNames (sampleInheriting "A" "x" "int" "A")
      (sampleInheriting " A\n" "\tx" "int " "A") ∧
    ∃ loaded, read (sampleInheriting "A" "x" "int" "A") = .ok loaded ∧
      read (sampleInheriting " A\n" "\tx" "int " "A") = .ok loaded := by
  have hp : aroundOwnNames.NamesOnly := fun depth element name hallows => hallows.1
  have hparents : ¬aroundOwnNames.OnParents := fun ⟨_, _, _, hne⟩ => hne rfl
  obtain ⟨loaded, hloaded⟩ : ∃ loaded, read (sampleInheriting "A" "x" "int" "A") = .ok loaded :=
    exists_read_of_check (check_of_toList String.toList_ofList)
  obtain ⟨hread, -⟩ := (read_padded hp padded_ownNames).1 hparents
  refine ⟨hp, hparents, padded_ownNames, loaded, hloaded, ?_⟩
  rw [hloaded] at hread
  generalize read (sampleInheriting " A\n" "\tx" "int " "A") = x at hread
  cases hread with
  | ok results => rw [results]

/-- With blanks around the name of the parent the class is not found. -/
theorem parent_keeps_blanks :
    sampleInheriting "A" "x" "int" " A " =
        "<c><class name='A'><attribute name='x'><primitive type='int'/></attribute></class>" ++
        "<class name='B' inheritsFrom=' A '/></c>" ∧
      Markup.Padded ⟨Reader.CarriesName, False⟩ (sampleInheriting "A" "x" "int" "A")
        (sampleInheriting "A" "x" "int" " A ") ∧
      error? (check (sampleInheriting "A" "x" "int" "A")) = none ∧
      error? (check (sampleInheriting "A" "x" "int" " A ")) =
        some (.invalid [⟨"B", none, .unknownParent " A "⟩]) := by
  have hparent : Reader.CarriesName 1 "class" "inheritsFrom" :=
    ⟨.cls, rfl, .tail _ (.head _), fun _ => rfl⟩
  refine ⟨by decide +kernel, ?_, check_of_toList String.toList_ofList,
    check_of_toList_blanks String.toList_ofList⟩
  exact padded_sampleInheriting (.inl rfl) (.inl rfl) (.inl rfl)
    (samplePadding_of_all [' '] [' '] hparent rfl rfl (by decide))

end Schema

end WireSchema
