import WireSchema.Emit.Backend
import WireSchema.Proofs.Emit.Members
import WireSchema.Proofs.Plan.Build
import WireSchema.Proofs.Schema.Links
import WireSchema.Proofs.Schema.Valid
import WireSchema.Schema.Validation

namespace WireSchema

open Outcome
open Relation (TransGen)

namespace Registry

variable {r : Registry} {c : ClassDef}

theorem checkClassName_eq_nil {name : String} : r.checkClassName name = [] ↔ r.contains name := by
  simp [checkClassName]

theorem checkElement_primitive_eq_nil (r : Registry) {typeName : String} :
    r.checkElement (.primitive typeName) = [] ↔ ∃ t, Primitive.ofName? typeName = some t := by
  rw [checkElement, checkPrimitiveName]
  cases Primitive.ofName? typeName <;> simp

theorem checkType_primitive_eq_nil {typeName : String} {default : Option String}
    {counts : Option Nat} : r.checkType (.primitive typeName default counts) = [] ↔
      ∃ t, Primitive.ofName? typeName = some t ∧
        ∀ text, default = some text → (Literal.readAs? t text).isSome := by
  cases ht : Primitive.ofName? typeName with
  | none => simp [checkType, ht]
  | some t => cases default <;> simp [checkType, ht, literalProblem?_eq_none]

/-- A field has a layout if its type is found to be right, it has a count if it is a variable list,
and what it counts is a variable list. -/
theorem exists_layout_iff {type : FieldType} {position : Nat} :
    (∃ l, HasLayout r c position type l) ↔ r.checkType type = [] ∧
      (∀ element n text, type = .variableList element n text → ∃ s, CountedBy r c position n s) ∧
      ∀ typeName default k, type = .primitive typeName default (some k) →
        ∃ g element n text, c.fields[k]? = some g ∧ g.type = .variableList element n text := by
  constructor
  · rintro ⟨l, hl⟩
    cases hl with
    | scalar ht hvalid => exact ⟨checkType_primitive_eq_nil.2 ⟨_, ht, hvalid⟩, by simp, by simp⟩
    | lengthOf ht hvalid hk hlist =>
        refine ⟨checkType_primitive_eq_nil.2 ⟨_, ht, hvalid⟩, by simp, ?_⟩
        rintro _ _ _ ⟨⟩
        exact ⟨_, _, _, _, hk, hlist⟩
    | nested hknown => exact ⟨checkClassName_eq_nil.2 hknown, by simp, by simp⟩
    | fixedScalars ht => exact ⟨(checkElement_primitive_eq_nil r).2 ⟨_, ht⟩, by simp, by simp⟩
    | fixedNested hknown => exact ⟨checkClassName_eq_nil.2 hknown, by simp, by simp⟩
    | scalarList ht hcount =>
        refine ⟨(checkElement_primitive_eq_nil r).2 ⟨_, ht⟩, ?_, by simp⟩
        rintro _ _ _ ⟨⟩
        exact ⟨_, hcount⟩
    | nestedList hknown hcount =>
        refine ⟨checkClassName_eq_nil.2 hknown, ?_, by simp⟩
        rintro _ _ _ ⟨⟩
        exact ⟨_, hcount⟩
  · rintro ⟨htype, hcount, hlinked⟩
    cases type with
    | primitive typeName default counts =>
        obtain ⟨t, ht, hvalid⟩ := checkType_primitive_eq_nil.1 htype
        cases counts with
        | none => exact ⟨_, .scalar ht hvalid⟩
        | some k =>
            obtain ⟨g, element, n, text, hk, hlist⟩ := hlinked typeName default k rfl
            exact ⟨_, .lengthOf ht hvalid hk hlist⟩
    | classRef target => exact ⟨_, .nested (checkClassName_eq_nil.1 htype)⟩
    | fixedList element length text =>
        cases element with
        | primitive typeName =>
            obtain ⟨t, ht⟩ := (checkElement_primitive_eq_nil r).1 htype
            exact ⟨_, .fixedScalars ht⟩
        | ofClass target => exact ⟨_, .fixedNested (checkClassName_eq_nil.1 htype)⟩
    | variableList element n text =>
        obtain ⟨s, hs⟩ := hcount element n text rfl
        cases element with
        | primitive typeName =>
            obtain ⟨t, ht⟩ := (checkElement_primitive_eq_nil r).1 htype
            exact ⟨_, .scalarList ht hs⟩
        | ofClass target => exact ⟨_, .nestedList (checkClassName_eq_nil.1 htype) hs⟩

theorem checkCount_eq_nil_iff {position : Nat} {n : String} : r.checkCount c position n = [] ↔
    (∃ s, CountedBy r c position n s) ∧
      ∀ f k, c.field? n = some f → f.counts? = some k → k = position := by
  rw [checkCount_eq_nil]
  constructor
  · rintro ⟨found, t, hfound, hafter, ht, hother⟩
    refine ⟨⟨_, found, t, hfound, hafter, ht, rfl⟩, ?_⟩
    intro f k hf hk
    rw [resolve?_of_field? hf] at hfound
    cases hfound
    exact hother k rfl hk
  · rintro ⟨⟨s, found, t, hfound, hafter, ht, -⟩, hother⟩
    exact ⟨found, t, hfound, hafter, ht,
      fun k hd hk => hother _ k (field?_of_resolve? hfound hd) hk⟩

end Registry

def FieldType.countField? : FieldType → Option String
  | variableList _ n _ => some n
  | _ => none

/-- A class without what planning lets pass and checking does not. -/
structure ClassDef.Plain (c : ClassDef) : Prop where
  names : (c.fields.map Field.name).Nodup
  lengths : ∀ f ∈ c.fields, ∀ element text, f.type ≠ .fixedList element 0 text
  slots : ∀ f ∈ c.fields, ∀ name length text, f.type ≠ .fixedList (.ofClass name) length text
  counts : ∀ (i j : Nat) (f g : Field) n, c.fields[i]? = some f → c.fields[j]? = some g →
    f.type.countField? = some n → g.type.countField? = some n → (c.field? n).isSome → i = j

namespace Registry

variable {r : Registry} {c : ClassDef}

theorem mem_of_resolve? {n : String} {found : Resolved} (hc : c ∈ r.classes)
    (h : r.resolve? c n = some found) : found.owner ∈ r.classes ∧ found.field ∈ found.owner.fields := by
  obtain ⟨ho, hf, -⟩ := resolve?_eq_some.1 h
  exact ⟨mem_classes_of_ancestor? hc (ancestor?_of_lineage ho), List.mem_of_find?_eq_some hf⟩

/-- The type of a field that is given an initial value is not checked with the value, but where the
field is declared. -/
theorem exists_assignment {i : InitialValue} (hc : c ∈ r.classes)
    (htypes : ∀ d ∈ r.classes, ∀ f ∈ d.fields, r.checkType f.type = [])
    (h : r.checkInitial c i = []) : ∃ a, Plan.assignment r c i = .ok a := by
  obtain ⟨found, typeName, hfound, htype, hvalid⟩ := checkInitial_eq_nil.1 h
  obtain ⟨howner, hfield⟩ := mem_of_resolve? hc hfound
  have hcheck := htypes _ howner _ hfield
  obtain ⟨t, ht⟩ : ∃ t, Primitive.ofName? typeName = some t := by
    rw [Field.typeName?] at htype
    split at htype
    next hprimitive =>
      cases htype
      rw [hprimitive] at hcheck
      obtain ⟨t, ht, -⟩ := checkType_primitive_eq_nil.1 hcheck
      exact ⟨t, ht⟩
    next => cases htype
  obtain ⟨l, hl⟩ := Option.isSome_iff_exists.1 (hvalid t ht)
  have hprimitive : found.field.primitive? = some t := by simp [Field.primitive?, htype, ht]
  exact ⟨_, Plan.assignment_eq_ok.2 ⟨found, t, l, hfound, hprimitive, hl, rfl⟩⟩

theorem checkInitial_of_assignment {i : InitialValue} {a : Assignment}
    (h : Plan.assignment r c i = .ok a) : r.checkInitial c i = [] := by
  obtain ⟨found, t, l, hfound, hprimitive, hl, -⟩ := Plan.assignment_eq_ok.1 h
  obtain ⟨typeName, htype, ht⟩ := Option.bind_eq_some_iff.1 hprimitive
  refine checkInitial_eq_nil.2 ⟨found, typeName, hfound, htype, ?_⟩
  intro t' ht'
  rw [ht] at ht'
  cases ht'
  simp [hl]

theorem build_of_valid (hlinked : r.Linked) (hvalid : ∀ d ∈ r.classes, d.Valid r)
    (hc : c ∈ r.classes) :
    (r.selfEmbedding? c = none → ∃ p, Plan.build r c = .ok p) ∧
      ∀ field, r.selfEmbedding? c = some field →
        Plan.build r c = .error (.unsupportedLayout c.name field (.embedsItself c.name)) := by
  have hv := hvalid c hc
  refine Plan.build_of_checks hv.known hv.ancestors (forall_mem_zipIdx.2 ?_) ?_
  · intro i f hf
    have hmem := List.mem_of_getElem? hf
    obtain ⟨l, hl⟩ : ∃ l, HasLayout r c i f.type l := by
      refine exists_layout_iff.2 ⟨hv.types f hmem, ?_, ?_⟩
      · intro element n text htype
        have hlist := hv.lists i f hf
        simp only [checkList, htype] at hlist
        exact (checkCount_eq_nil_iff.1 hlist).1
      · intro typeName default k htype
        have hk : f.counts? = some k := by simp [Field.counts?, htype]
        obtain ⟨-, g, element, text, hg, hlist⟩ := (hlinked c hc).of_counts? hf hk
        exact ⟨g, element, f.name, text, hg, hlist⟩
    exact ⟨_, Plan.field_eq_ok.2 ⟨l, hl, rfl⟩⟩
  · intro i hi
    exact exists_assignment hc (fun d hd => (hvalid d hd).types) (hv.initial i hi)

theorem checkList_of_layout (hlinked : LinkedFields c.fields) (hplain : c.Plain) {i : Nat}
    {f : Field} {l : Layout} (hf : c.fields[i]? = some f) (hl : HasLayout r c i f.type l) :
    r.checkList c f i = [] := by
  have hmem := List.mem_of_getElem? hf
  rw [checkList]
  cases htype : f.type with
  | primitive typeName default counts => rfl
  | classRef name => rfl
  | fixedList element length text =>
      have hlength : length ≠ 0 := by
        rintro rfl
        exact hplain.lengths f hmem element text htype
      cases element with
      | primitive typeName => simp [hlength]
      | ofClass name => exact absurd htype (hplain.slots f hmem name length text)
  | variableList element n text =>
      obtain ⟨-, hcount, -⟩ := exists_layout_iff.1 ⟨l, hl⟩
      refine checkCount_eq_nil_iff.2 ⟨hcount element n text htype, ?_⟩
      -- a second list that the count field is linked to names it as well
      intro g k hg hk
      obtain ⟨j, -, hj⟩ := ClassDef.fieldIndex?_of_field? hg
      obtain ⟨-, list, element', text', hlist, htype'⟩ := hlinked.of_counts? hj hk
      rw [ClassDef.name_of_field? hg] at htype'
      exact hplain.counts k i list f n hlist hf (by simp [htype', FieldType.countField?])
        (by simp [htype, FieldType.countField?]) (by simp [hg])

theorem valid_of_build (hlinked : r.Linked) (hc : c ∈ r.classes) (hplain : c.Plain) {p : Plan}
    (h : Plan.build r c = .ok p) : c.Valid r := by
  have hb := Plan.built_of_build h
  have hlayouts : ∀ i f, c.fields[i]? = some f → ∃ l, HasLayout r c i f.type l := by
    intro i f hf
    have hmem : (f, i) ∈ c.fields.zipIdx := List.mem_zipIdx_iff_getElem?.2 hf
    obtain ⟨fp, -, hfp⟩ := exists_right_of_mem hb.fields hmem
    obtain ⟨l, hl, -⟩ := Plan.field_eq_ok.1 hfp
    exact ⟨l, hl⟩
  refine ⟨hb.known, hb.ancestors, hplain.names, ?_, ?_, ?_⟩
  · intro f hf
    obtain ⟨i, hi⟩ := List.mem_iff_getElem?.1 hf
    exact (exists_layout_iff.1 (hlayouts i f hi)).1
  · intro i f hf
    obtain ⟨l, hl⟩ := hlayouts i f hf
    exact checkList_of_layout (hlinked c hc) hplain hf hl
  · intro i hi
    obtain ⟨a, -, ha⟩ := exists_right_of_mem hb.assignments hi
    exact checkInitial_of_assignment ha

end Registry

namespace Plan

variable {r : Registry} {c : ClassDef}

theorem not_hasSlots_of_valid (hvalid : c.Valid r) {p : Plan} (h : build r c = .ok p) :
    ¬p.HasSlots := by
  rintro ⟨fp, hfp, name, length, hlayout⟩
  obtain ⟨⟨f, i⟩, hf, hfield⟩ := exists_left_of_mem (built_of_build h).fields hfp
  obtain ⟨l, hl, rfl⟩ := field_eq_ok.1 hfield
  simp only at hlayout hl
  subst hlayout
  generalize htype : f.type = type at hl
  cases hl
  have hlist := hvalid.lists i f (List.mem_zipIdx_iff_getElem?.1 hf)
  simp [Registry.checkList, htype] at hlist

end Plan

theorem Language.render_eq_error {b : Language} {p : Plan} {settings : Settings} {e : PlanError}
    (hslots : ¬p.HasSlots) (h : b.backend.render p settings = .error e) :
    ∃ field name, e = .nameCollision p.name field name := by
  obtain ⟨terms, hterms⟩ := Plan.exists_sizeTerms.2 hslots
  have hnames {rules : MemberRules} {code : List String → Code}
      (h : (do return code (← rules.identifiers p)) = .error e) :
      ∃ field name, e = .nameCollision p.name field name := by
    rcases bind_eq_error.1 h with h | ⟨names, -, h⟩
    · obtain ⟨f, -, name, he, -⟩ := MemberRules.assignFrom_eq_error h
      exact ⟨f.name, name, he⟩
    · cases h
  cases b with
  | rust =>
      have h := map_eq_error.1 h
      rw [Rust.classModule, hterms] at h
      exact hnames h
  | java =>
      have h := map_eq_error.1 h
      rw [Java.classUnit, hterms] at h
      exact hnames h

theorem Schema.read_of_check {source : String} {loaded : Loaded}
    (h : Schema.check source = .ok loaded) :
    (∃ read, Schema.read source = .ok read ∧ read.schema = loaded.schema) ∧
      loaded.schema.registry.validate = [] := by
  rw [Schema.check] at h
  split at h
  next => cases h
  next read hread =>
    simp only at h
    split at h
    next => cases h
    next herrors =>
      cases h
      refine ⟨⟨read, hread, rfl⟩, List.eq_nil_iff_forall_not_mem.2 fun d hd => herrors ?_⟩
      exact List.any_eq_true.2 ⟨d, by simp [hd], Registry.isError_of_mem_validate hd⟩

theorem Schema.valid_of_check {source : String} {loaded : Loaded}
    (h : Schema.check source = .ok loaded) : loaded.schema.registry.Linked ∧
      ∀ c ∈ loaded.schema.registry.classes, c.Valid loaded.schema.registry := by
  obtain ⟨⟨read, hread, hschema⟩, hnil⟩ := Schema.read_of_check h
  exact ⟨hschema ▸ Schema.linked_of_read hread, Registry.validate_eq_nil.1 hnil⟩

def Schema.sample : String :=
  "<s><class name='A'><attribute name='n'><primitive type='byte'/></attribute>" ++
  "<attribute name='u'><list type='variable' countFieldName='n'><classRef name='A'/></list>" ++
  "</attribute></class><class name='B' inheritsFrom='A'><attribute name='v'>" ++
  "<list type='variable' countFieldName='n'><primitive type='short'/></list></attribute></class></s>"

namespace Registry

def sampleBase : ClassDef where
  name := "A"
  fields := [⟨"n", none, .primitive "byte" none (some 1)⟩,
    ⟨"u", none, .variableList (.ofClass "A") "n" false⟩]

def sampleDerived : ClassDef where
  name := "B"
  parent := "A"
  fields := [⟨"v", none, .variableList (.primitive "short") "n" false⟩]

def sample : Registry :=
  ⟨[sampleBase, sampleDerived], by decide⟩

end Registry

namespace Plan

def sampleBase : Plan where
  name := "A"
  parent := none
  comment := none
  root := false
  fields := [⟨"n", none, .lengthOf .byte "u", none, false⟩,
    ⟨"u", none, .nestedList "A" ⟨"n", "A", 0, .byte⟩, none, false⟩]
  assignments := []

def sampleDerived : Plan where
  name := "B"
  parent := some "A"
  comment := none
  root := false
  fields := [⟨"v", none, .scalarList .short ⟨"n", "A", 1, .byte⟩, none, false⟩]
  assignments := []

theorem build_sampleBase : build Registry.sample Registry.sampleBase = .ok sampleBase := by
  decide +kernel

theorem build_sampleDerived : build Registry.sample Registry.sampleDerived = .ok sampleDerived := by
  decide +kernel

theorem all_sample :
    all Registry.sample = [("A", .ok sampleBase), ("B", .ok sampleDerived)] := by
  rw [← build_sampleBase, ← build_sampleDerived]
  rfl

end Plan

theorem Text.append_eq_ofList {s t : String} {cs ds : List Char} (hs : s = String.ofList cs)
    (ht : t = String.ofList ds) : s ++ t = String.ofList (cs ++ ds) := by
  rw [hs, ht, String.ofList_append]

set_option maxRecDepth 2000 in
theorem Schema.classes_of_check_sample :
    (Schema.check Schema.sample).toOption.map (·.schema.registry.classes) =
      some Registry.sample.classes := by
  -- The parts of the text are taken apart by their syntax: the characters of a text are decoded from
  -- its bytes, which takes longer than reading them.
  have hchars : Schema.sample = String.ofList _ :=
    Text.append_eq_ofList (Text.append_eq_ofList (Text.append_eq_ofList rfl rfl) rfl) rfl
  have hcheck (source : String) (h : source = Schema.sample) :
      (Schema.check source).toOption.map (·.schema.registry.classes) =
        some Registry.sample.classes := by
    unfold Schema.check Schema.read Markup.walk Markup.parse?
    rw [h, hchars, String.toList_ofList]
    decide +kernel
  exact hcheck _ rfl

theorem Schema.exists_of_classes {source : String} {r : Registry}
    (hclasses : (Schema.check source).toOption.map (·.schema.registry.classes) = some r.classes) :
    ∃ loaded, Schema.check source = .ok loaded ∧ loaded.schema.registry = r := by
  cases h : Schema.check source with
  | error e =>
      rw [h] at hclasses
      cases hclasses
  | ok loaded =>
      rw [h] at hclasses
      refine ⟨loaded, rfl, ?_⟩
      have hclasses : loaded.schema.registry.classes = r.classes := Option.some.inj hclasses
      generalize loaded.schema.registry = r' at hclasses
      obtain ⟨classes, nodup⟩ := r
      obtain ⟨classes', nodup'⟩ := r'
      obtain rfl : classes' = classes := hclasses
      rfl

theorem Schema.check_sample : ∃ loaded, Schema.check Schema.sample = .ok loaded ∧
    loaded.schema.registry = Registry.sample :=
  Schema.exists_of_classes Schema.classes_of_check_sample

theorem Registry.plain_sample : ∀ c ∈ Registry.sample.classes, c.Plain := by
  -- Neither class has two variable lists of its own.
  have hone (c : ClassDef) (k : Nat)
      (h : ∀ i f, c.fields[i]? = some f → f.type.countField? ≠ none → i = k) (i j : Nat)
      (f g : Field) (n : String) (hf : c.fields[i]? = some f) (hg : c.fields[j]? = some g)
      (hfn : f.type.countField? = some n) (hgn : g.type.countField? = some n) : i = j := by
    rw [h i f hf (by simp [hfn]), h j g hg (by simp [hgn])]
  simp only [sample, List.forall_mem_cons, List.not_mem_nil, false_implies, implies_true, and_true]
  refine ⟨⟨by decide, by simp [sampleBase], by simp [sampleBase], ?_⟩,
    ⟨by decide, by simp [sampleDerived], by simp [sampleDerived], ?_⟩⟩
  · intro i j f g n hf hg hfn hgn _
    refine hone sampleBase 1 ?_ i j f g n hf hg hfn hgn
    rintro (_ | _ | i) f hf hn
    · cases hf
      exact absurd rfl hn
    · rfl
    · cases hf
  · intro i j f g n hf hg hfn hgn _
    refine hone sampleDerived 0 ?_ i j f g n hf hg hfn hgn
    rintro (_ | i) f hf hn
    · rfl
    · cases hf

/-- Checking and planning agree on the classes of every schema that can be read. If nothing worse
than a warning is found, planning fails exactly on the classes that hold themselves, and what is
planned can be measured, and be generated up to clashes of names. In the other direction, if all
classes can be planned and are plain, nothing worse than a warning is found. -/
theorem Schema.validate_agrees_with_build {source : String} {loaded : Loaded} {r : Registry}
    (h : Schema.read source = .ok loaded) (hr : loaded.schema.registry = r) :
    ((∀ d ∈ r.validate, ¬d.isError) → ∀ c ∈ r.classes,
      ((∃ p, Plan.build r c = .ok p) ∧ ¬TransGen r.Embeds c.name c.name ∨
        (∃ field, Plan.build r c =
          .error (.unsupportedLayout c.name field (.embedsItself c.name))) ∧
          TransGen r.Embeds c.name c.name) ∧
      ∀ p, Plan.build r c = .ok p → (∃ terms, p.sizeTerms = .ok terms) ∧
        ∀ (b : Language) settings e, b.backend.render p settings = .error e →
          ∃ field name, e = .nameCollision c.name field name) ∧
    ((∀ c ∈ r.classes, (∃ p, Plan.build r c = .ok p) ∧ c.Plain) →
      ∀ d ∈ r.validate, ¬d.isError) := by
  have hlinked : r.Linked := hr ▸ Schema.linked_of_read h
  constructor
  · intro herrors c hc
    have hnil : r.validate = [] :=
      List.eq_nil_iff_forall_not_mem.2 fun d hd => herrors d hd (Registry.isError_of_mem_validate hd)
    have hvalid := Registry.validate_eq_nil.1 hnil
    refine ⟨?_, ?_⟩
    · obtain ⟨hok, hself⟩ := Registry.build_of_valid hlinked hvalid hc
      rw [← Registry.selfEmbedding?_isSome hc]
      cases h : r.selfEmbedding? c with
      | none => exact .inl ⟨hok h, by simp⟩
      | some field => exact .inr ⟨⟨field, hself field h⟩, by simp⟩
    · intro p hp
      have hslots := Plan.not_hasSlots_of_valid (hvalid c hc) hp
      rw [← (Plan.built_of_build hp).name]
      exact ⟨Plan.exists_sizeTerms.2 hslots, fun b settings e he => Language.render_eq_error hslots he⟩
  · intro hbuild d hd
    have hvalid : ∀ c ∈ r.classes, c.Valid r := by
      intro c hc
      obtain ⟨⟨p, hp⟩, hplain⟩ := hbuild c hc
      exact Registry.valid_of_build hlinked hc hplain hp
    rw [Registry.validate_eq_nil.2 hvalid] at hd
    cases hd

theorem Schema.validate_agrees_with_build_sample : ∃ loaded,
    Schema.read Schema.sample = .ok loaded ∧ loaded.schema.registry = Registry.sample ∧
    (∀ d ∈ Registry.sample.validate, ¬d.isError) ∧
    ∀ c ∈ Registry.sample.classes, ∃ p, Plan.build Registry.sample c = .ok p ∧
      ∃ terms, p.sizeTerms = .ok terms := by
  obtain ⟨checked, hcheck, hsample⟩ := Schema.check_sample
  obtain ⟨⟨loaded, hread, hschema⟩, -⟩ := Schema.read_of_check hcheck
  have hr : loaded.schema.registry = Registry.sample := by rw [hschema, hsample]
  have hagree := Schema.validate_agrees_with_build hread hr
  have hbuild : ∀ c ∈ Registry.sample.classes, ∃ p, Plan.build Registry.sample c = .ok p :=
    List.forall_mem_cons.2 ⟨⟨_, Plan.build_sampleBase⟩,
      List.forall_mem_singleton.2 ⟨_, Plan.build_sampleDerived⟩⟩
  have hnone := hagree.2 fun c hc => ⟨hbuild c hc, Registry.plain_sample c hc⟩
  refine ⟨loaded, hread, hr, hnone, fun c hc => ?_⟩
  obtain ⟨p, hp⟩ := hbuild c hc
  exact ⟨p, hp, ((hagree.1 hnone c hc).2 p hp).1⟩

end WireSchema
