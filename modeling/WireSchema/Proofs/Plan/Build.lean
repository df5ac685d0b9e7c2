import WireSchema.Proofs.Outcome
import WireSchema.Proofs.Plan.Embedding

namespace WireSchema

open Outcome

namespace Plan

variable {r : Registry} {c : ClassDef}

def parentName (r : Registry) (c : ClassDef) : Except PlanError (Option String) :=
  match c.parent? with
  | none => .ok none
  | some name => some <$> knownClass r c "inheritsFrom" name

theorem build_eq (r : Registry) (c : ClassDef) : build r c = (do
    let parent ← parentName r c
    checkAncestors r c
    let fields ← c.fields.zipIdx.mapM fun x => field r c x.1 x.2
    checkEmbedding r c
    let assignments ← c.initial.mapM (assignment r c)
    return ⟨c.name, parent, c.comment, c.root, fields, assignments⟩) := by
  unfold build parentName
  cases c.parent? <;> rfl

theorem primitive_eq_ok {field typeName : String} {t : Primitive} :
    primitive c field typeName = .ok t ↔ Primitive.ofName? typeName = some t := by
  rw [primitive]
  split <;> simp_all

theorem knownClass_eq_ok {field name target : String} :
    knownClass r c field name = .ok target ↔ r.contains name ∧ target = name := by
  rw [knownClass]
  split <;> simp_all [eq_comm (a := target)]

theorem parentName_eq_ok {parent : Option String} : parentName r c = .ok parent ↔
    parent = c.parent? ∧ ∀ name, c.parent? = some name → r.contains name := by
  rw [parentName]
  cases c.parent? with
  | none => simp [eq_comm (a := parent)]
  | some name => simp [map_eq_ok, knownClass_eq_ok, and_comm, eq_comm (a := parent)]

theorem climb_eq {passed passed' : List String} {next : Option ClassDef}
    (h : ∀ name, name ∈ passed ↔ name ∈ passed') : climb r c passed next =
      (next.bind (r.ancestor? (r.lineageFrom passed' next).length)).elim (.ok ())
        fun _ => .error (.inheritanceCycle c.name) := by
  fun_induction climb r c passed next generalizing passed' with
  | case1 => rfl
  | case2 passed d hagain => rw [Registry.lineageFrom_of_mem ((h d.name).1 hagain)]; rfl
  | case3 passed d hnew ih =>
      rw [Registry.lineageFrom_of_notMem (mt (h d.name).2 hnew)]
      apply ih
      intro name
      rw [List.mem_insert_iff, List.mem_append, List.mem_singleton, or_comm, h name]

theorem checkAncestors_eq (r : Registry) (c : ClassDef) : checkAncestors r c =
    (r.revisited? c).elim (.ok ()) fun _ => .error (.inheritanceCycle c.name) := by
  rw [checkAncestors, climb_eq fun _ => Iff.rfl, Registry.revisited?, Registry.lineage,
    Registry.lineageFrom_of_notMem List.not_mem_nil]
  rfl

theorem checkAncestors_eq_ok : checkAncestors r c = .ok () ↔ r.revisited? c = none := by
  rw [checkAncestors_eq]
  cases r.revisited? c <;> simp

theorem checkEmbedding_eq_ok : checkEmbedding r c = .ok () ↔ r.selfEmbedding? c = none := by
  rw [checkEmbedding]
  cases r.selfEmbedding? c <;> simp

end Plan

/-- What planning the class `c` to `p` has checked. -/
structure Built (r : Registry) (c : ClassDef) (p : Plan) : Prop where
  name : p.name = c.name
  parent : p.parent = c.parent?
  known : ∀ name, c.parent? = some name → r.contains name
  ancestors : r.revisited? c = none
  fields : List.Forall₂ (fun x f => Plan.field r c x.1 x.2 = .ok f) c.fields.zipIdx p.fields
  embedding : r.selfEmbedding? c = none
  assignments : List.Forall₂ (fun i a => Plan.assignment r c i = .ok a) c.initial p.assignments

namespace Plan

variable {r : Registry} {c : ClassDef}

theorem built_of_build {p : Plan} (h : build r c = .ok p) : Built r c p := by
  rw [build_eq] at h
  obtain ⟨parent, hparent, h⟩ := bind_eq_ok.1 h
  obtain ⟨_, hancestors, h⟩ := bind_eq_ok.1 h
  obtain ⟨fields, hfields, h⟩ := bind_eq_ok.1 h
  obtain ⟨_, hembedding, h⟩ := bind_eq_ok.1 h
  obtain ⟨assignments, hassignments, h⟩ := bind_eq_ok.1 h
  cases h
  obtain ⟨rfl, hknown⟩ := parentName_eq_ok.1 hparent
  exact ⟨rfl, rfl, hknown, checkAncestors_eq_ok.1 hancestors, mapM_eq_ok.1 hfields,
    checkEmbedding_eq_ok.1 hembedding, mapM_eq_ok.1 hassignments⟩

/-- A class can be planned as soon as every check succeeds but the one that it does not embed
itself; then that one decides. -/
theorem build_of_checks (hknown : ∀ name, c.parent? = some name → r.contains name)
    (hancestors : r.revisited? c = none)
    (hfields : ∀ x ∈ c.fields.zipIdx, ∃ f, field r c x.1 x.2 = .ok f)
    (hassignments : ∀ i ∈ c.initial, ∃ a, assignment r c i = .ok a) :
    (r.selfEmbedding? c = none → ∃ p, build r c = .ok p) ∧
      ∀ field, r.selfEmbedding? c = some field →
        build r c = .error (.unsupportedLayout c.name field (.embedsItself c.name)) := by
  obtain ⟨fields, hfields⟩ := exists_mapM_eq_ok hfields
  obtain ⟨assignments, hassignments⟩ := exists_mapM_eq_ok hassignments
  have hparent := parentName_eq_ok.2 ⟨rfl, hknown⟩
  rw [build_eq, hparent, ok_bind, checkAncestors_eq_ok.2 hancestors, ok_bind, hfields, ok_bind]
  rw [checkEmbedding]
  constructor
  · intro hnone
    exact ⟨_, by rw [hnone, ok_bind, hassignments]; rfl⟩
  · intro field hfield
    rw [hfield]
    rfl

end Plan

/-- The list at `position` in the class `c` finds its count at `s`: in the field that its name `n`
for it resolves to, which in the class itself does not stand after the list. -/
def CountedBy (r : Registry) (c : ClassDef) (position : Nat) (n : String) (s : CountSource) : Prop :=
  ∃ found t, r.resolve? c n = some found ∧
    ¬(found.depth = 0 ∧ (c.fieldIndex? n).any (position < ·)) ∧
    found.field.integer? = some t ∧ s = ⟨n, found.owner.name, found.depth, t⟩

namespace Plan

variable {r : Registry} {c : ClassDef}

theorem countSource_eq_ok {position : Nat} {list n : String} {s : CountSource} :
    countSource r c position list n = .ok s ↔ CountedBy r c position n s := by
  rw [countSource]
  constructor
  · intro h
    split at h
    next => cases h
    next found hfound =>
      split at h
      next => cases h
      next hafter =>
        split at h
        next => cases h
        next t ht =>
          cases h
          exact ⟨found, t, hfound, hafter, ht, rfl⟩
  · rintro ⟨found, t, hfound, hafter, ht, rfl⟩
    simp only [hfound, if_neg hafter, ht]

theorem assignment_eq_ok {i : InitialValue} {a : Assignment} :
    assignment r c i = .ok a ↔ ∃ found t l, r.resolve? c i.field = some found ∧
      found.field.primitive? = some t ∧ Literal.readAs? t i.value = some l ∧
      a = ⟨i.field, found.owner.name, found.depth, t, l⟩ := by
  rw [assignment]
  constructor
  · intro h
    split at h
    next => cases h
    next found hfound =>
      simp only at h
      split at h
      next => cases h
      next t ht =>
        split at h
        next => cases h
        next l hl =>
          cases h
          exact ⟨found, t, l, hfound, ht, hl, rfl⟩
  · rintro ⟨found, t, l, hfound, ht, hl, rfl⟩
    simp only [hfound, ht, hl]

theorem defaultValue_eq_ok {field typeName : String} {t : Primitive} {text : Option String}
    {value : Option Literal} :
    defaultValue c field typeName t text = .ok value ↔
      value = text.bind (Literal.readAs? t) ∧ ∀ s, text = some s → (Literal.readAs? t s).isSome := by
  cases text with
  | none => simp [defaultValue, eq_comm (a := value)]
  | some s =>
      cases h : Literal.readAs? t s <;> simp [defaultValue, h, eq_comm (a := value)]

theorem primitiveLayout_eq_ok {field : String} {t : Primitive} {counts : Option Nat} {l : Layout} :
    primitiveLayout c field t counts = .ok l ↔ counts = none ∧ l = .scalar t ∨
      ∃ k g element n text, counts = some k ∧ c.fields[k]? = some g ∧
        g.type = .variableList element n text ∧ l = .lengthOf t g.name := by
  cases counts with
  | none => simp [primitiveLayout, eq_comm (a := l)]
  | some k =>
      simp only [primitiveLayout]
      constructor
      · intro h
        split at h
        next name comment element n text hk =>
          cases h
          exact .inr ⟨k, _, element, n, text, rfl, hk, rfl, rfl⟩
        next => cases h
      · rintro (⟨h, -⟩ | ⟨k, g, element, n, text, hk, hg, htype, rfl⟩)
        · cases h
        · cases hk
          obtain ⟨name, comment, type⟩ := g
          cases htype
          rw [hg]

end Plan

inductive HasLayout (r : Registry) (c : ClassDef) (position : Nat) : FieldType → Layout → Prop
  | scalar {typeName : String} {default : Option String} {t : Primitive}
      (type : Primitive.ofName? typeName = some t)
      (valid : ∀ text, default = some text → (Literal.readAs? t text).isSome) :
      HasLayout r c position (.primitive typeName default none) (.scalar t)
  | lengthOf {typeName : String} {default : Option String} {t : Primitive} {k : Nat} {list : Field}
      {element : ElementType} {n : String} {text : Bool}
      (type : Primitive.ofName? typeName = some t)
      (valid : ∀ text, default = some text → (Literal.readAs? t text).isSome)
      (linked : c.fields[k]? = some list) (isList : list.type = .variableList element n text) :
      HasLayout r c position (.primitive typeName default (some k)) (.lengthOf t list.name)
  | nested {name : String} (known : r.contains name) :
      HasLayout r c position (.classRef name) (.nested name)
  | fixedScalars {typeName : String} {t : Primitive} {length : Nat} {text : Bool}
      (type : Primitive.ofName? typeName = some t) :
      HasLayout r c position (.fixedList (.primitive typeName) length text) (.fixedScalars t length)
  | fixedNested {name : String} {length : Nat} {text : Bool} (known : r.contains name) :
      HasLayout r c position (.fixedList (.ofClass name) length text) (.fixedNested name length)
  | scalarList {typeName n : String} {t : Primitive} {text : Bool} {count : CountSource}
      (type : Primitive.ofName? typeName = some t) (counted : CountedBy r c position n count) :
      HasLayout r c position (.variableList (.primitive typeName) n text) (.scalarList t count)
  | nestedList {name n : String} {text : Bool} {count : CountSource}
      (known : r.contains name) (counted : CountedBy r c position n count) :
      HasLayout r c position (.variableList (.ofClass name) n text) (.nestedList name count)

namespace FieldType

def default? : FieldType → Option Literal
  | primitive typeName default _ =>
    (Primitive.ofName? typeName).bind fun t => default.bind (Literal.readAs? t)
  | _ => none

def isText : FieldType → Bool
  | fixedList _ _ text | variableList _ _ text => text
  | _ => false

end FieldType

namespace Plan

variable {r : Registry} {c : ClassDef}

theorem field_eq_ok {f : Field} {position : Nat} {fp : FieldPlan} :
    field r c f position = .ok fp ↔ ∃ l, HasLayout r c position f.type l ∧
      fp = ⟨f.name, f.comment, l, f.type.default?, f.type.isText⟩ := by
  obtain ⟨name, comment, type⟩ := f
  cases type with
  | primitive typeName default counts =>
      simp only [field, bind_eq_ok, primitive_eq_ok, defaultValue_eq_ok, primitiveLayout_eq_ok]
      constructor
      · rintro ⟨t, ht, value, ⟨rfl, hvalid⟩, l, hl, h⟩
        cases h
        refine ⟨l, ?_, by simp [FieldType.default?, ht, FieldType.isText]⟩
        rcases hl with ⟨rfl, rfl⟩ | ⟨k, g, element, n, text, rfl, hk, hg, rfl⟩
        · exact .scalar ht hvalid
        · exact .lengthOf ht hvalid hk hg
      · rintro ⟨l, hl, rfl⟩
        cases hl with
        | scalar ht hvalid =>
            exact ⟨_, ht, _, ⟨rfl, hvalid⟩, _, .inl ⟨rfl, rfl⟩,
              by simp [FieldType.default?, ht, FieldType.isText]⟩
        | lengthOf ht hvalid hk hg =>
            exact ⟨_, ht, _, ⟨rfl, hvalid⟩, _, .inr ⟨_, _, _, _, _, rfl, hk, hg, rfl⟩,
              by simp [FieldType.default?, ht, FieldType.isText]⟩
  | classRef target =>
      simp only [field, bind_eq_ok, knownClass_eq_ok]
      constructor
      · rintro ⟨_, ⟨hknown, rfl⟩, h⟩
        cases h
        exact ⟨_, .nested hknown, rfl⟩
      · rintro ⟨l, hl, rfl⟩
        cases hl with
        | nested hknown => exact ⟨_, ⟨hknown, rfl⟩, rfl⟩
  | fixedList element length text =>
      cases element with
      | primitive typeName =>
          simp only [field, bind_eq_ok, primitive_eq_ok]
          constructor
          · rintro ⟨t, ht, h⟩
            cases h
            exact ⟨_, .fixedScalars ht, rfl⟩
          · rintro ⟨l, hl, rfl⟩
            cases hl with
            | fixedScalars ht => exact ⟨_, ht, rfl⟩
      | ofClass target =>
          simp only [field, bind_eq_ok, knownClass_eq_ok]
          constructor
          · rintro ⟨_, ⟨hknown, rfl⟩, h⟩
            cases h
            exact ⟨_, .fixedNested hknown, rfl⟩
          · rintro ⟨l, hl, rfl⟩
            cases hl with
            | fixedNested hknown => exact ⟨_, ⟨hknown, rfl⟩, rfl⟩
  | variableList element n text =>
      cases element with
      | primitive typeName =>
          simp only [field, bind_eq_ok, primitive_eq_ok, countSource_eq_ok]
          constructor
          · rintro ⟨count, hcount, t, ht, l, hl, h⟩
            cases hl
            cases h
            exact ⟨_, .scalarList ht hcount, rfl⟩
          · rintro ⟨l, hl, rfl⟩
            cases hl with
            | scalarList ht hcount => exact ⟨_, hcount, _, ht, _, rfl, rfl⟩
      | ofClass target =>
          simp only [field, bind_eq_ok, knownClass_eq_ok, countSource_eq_ok]
          constructor
          · rintro ⟨count, hcount, _, ⟨hknown, rfl⟩, l, hl, h⟩
            cases hl
            cases h
            exact ⟨_, .nestedList hknown hcount, rfl⟩
          · rintro ⟨l, hl, rfl⟩
            cases hl with
            | nestedList hknown hcount => exact ⟨_, hcount, _, ⟨hknown, rfl⟩, _, rfl, rfl⟩

end Plan

namespace Built

variable {r : Registry} {c : ClassDef} {p : Plan}

theorem field_of_class (h : Built r c p) {i : Nat} {f : Field} (hf : c.fields[i]? = some f) :
    ∃ l, HasLayout r c i f.type l ∧
      p.fields[i]? = some ⟨f.name, f.comment, l, f.type.default?, f.type.isText⟩ := by
  have hlength := h.fields.length_eq
  obtain ⟨hi, rfl⟩ := List.getElem?_eq_some_iff.1 hf
  have hi' : i < p.fields.length := by simpa [← hlength] using hi
  have hfield := h.fields.get (i := i) (by simpa using hi) hi'
  obtain ⟨l, hl, heq⟩ := Plan.field_eq_ok.1 hfield
  simp only [List.get_eq_getElem, List.getElem_zipIdx, Nat.zero_add] at hl heq
  exact ⟨l, hl, by rw [List.getElem?_eq_getElem hi', heq]⟩

theorem field_of_plan (h : Built r c p) {i : Nat} {fp : FieldPlan} (hfp : p.fields[i]? = some fp) :
    ∃ f, c.fields[i]? = some f ∧ HasLayout r c i f.type fp.layout ∧ fp.name = f.name ∧
      fp.default = f.type.default? := by
  obtain ⟨hi, -⟩ := List.getElem?_eq_some_iff.1 hfp
  have hi' : i < c.fields.length := by simpa [← h.fields.length_eq] using hi
  obtain ⟨l, hl, heq⟩ := h.field_of_class (List.getElem?_eq_getElem hi')
  rw [hfp] at heq
  cases heq
  exact ⟨_, List.getElem?_eq_getElem hi', hl, rfl, rfl⟩

theorem map_name (h : Built r c p) : p.fields.map FieldPlan.name = c.fields.map Field.name := by
  have hnames : List.Forall₂ Eq (c.fields.zipIdx.map (Field.name ∘ Prod.fst))
      (p.fields.map FieldPlan.name) := by
    rw [List.forall₂_map_left_iff, List.forall₂_map_right_iff]
    apply h.fields.imp
    intro x fp hfield
    obtain ⟨l, -, rfl⟩ := Plan.field_eq_ok.1 hfield
    rfl
  rw [List.forall₂_eq_eq_eq] at hnames
  rw [← hnames, ← List.map_map, List.zipIdx_map_fst]

theorem field?_of_class (h : Built r c p) {n : String} {f : Field} (hf : c.field? n = some f) :
    ∃ i l, HasLayout r c i f.type l ∧
      p.field? n = some ⟨f.name, f.comment, l, f.type.default?, f.type.isText⟩ := by
  obtain ⟨i, hi, hfield⟩ := ClassDef.fieldIndex?_of_field? hf
  obtain ⟨l, hl, hplan⟩ := h.field_of_class hfield
  have hindex : p.fields.findIdx? (·.name == n) = some i := by
    have hmap := congrArg (List.findIdx? (· == n)) h.map_name
    simp only [List.findIdx?_map, Function.comp_def] at hmap
    rw [hmap]
    exact hi
  refine ⟨i, l, hl, ?_⟩
  rw [Plan.field?, List.find?_eq_bind_findIdx?_getElem?, hindex]
  exact hplan

end Built

namespace Plan

def HasSlots (p : Plan) : Prop :=
  ∃ f ∈ p.fields, ∃ className length, f.layout = .fixedNested className length

theorem sizeTerm_eq_error {className : String} {f : FieldPlan} {e : PlanError}
    (h : f.sizeTerm className = .error e) :
    (∃ name length, f.layout = .fixedNested name length) ∧
      ∃ field problem, e = .unsupportedLayout className field problem := by
  rw [FieldPlan.sizeTerm] at h
  cases hl : f.layout with
  | fixedNested name length =>
      simp only [hl] at h
      cases h
      exact ⟨⟨name, length, rfl⟩, _, _, rfl⟩
  | _ => simp [hl] at h

theorem sizeTerms_eq_error {p : Plan} {e : PlanError} (h : p.sizeTerms = .error e) :
    p.HasSlots ∧ ∃ field problem, e = .unsupportedLayout p.name field problem := by
  rcases bind_eq_error.1 h with h | ⟨_, -, h⟩
  · obtain ⟨f, hf, hterm⟩ := mapM_eq_error h
    exact ⟨⟨f, hf, (sizeTerm_eq_error hterm).1⟩, (sizeTerm_eq_error hterm).2⟩
  · cases h

theorem exists_sizeTerms {p : Plan} : (∃ terms, p.sizeTerms = .ok terms) ↔ ¬p.HasSlots := by
  constructor
  · rintro ⟨terms, h⟩ ⟨f, hf, name, length, hl⟩
    obtain ⟨fields, hfields, -⟩ := bind_eq_ok.1 h
    obtain ⟨term, -, hterm⟩ := exists_right_of_mem (mapM_eq_ok.1 hfields) hf
    simp [FieldPlan.sizeTerm, hl] at hterm
  · intro hslots
    cases h : p.sizeTerms with
    | ok terms => exact ⟨terms, rfl⟩
    | error e => exact absurd (sizeTerms_eq_error h).1 hslots

end Plan

end WireSchema
