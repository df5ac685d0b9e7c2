import WireSchema.Emit.Java.Unit
import WireSchema.Emit.Rust.Module
import WireSchema.Proofs.Emit.Steps

namespace WireSchema.Code

/-- The lines that open the outer blocks of a code in which each block that is opened is closed. -/
inductive Outline : Code → List String → Prop
  | nil : Outline [] []
  | line {text : String} {code : Code} {heads : List String} (behind : Outline code heads) :
      Outline (.line text :: code) heads
  | block {first last : String} {body code : Code} {inner heads : List String}
      (inside : Outline body inner) (behind : Outline code heads) :
      Outline (.opening first :: (body ++ .closing last :: code)) (first :: heads)

structure Heading where
  front : String
  name : String
  back : String

def Heading.signature (h : Heading) : String :=
  h.front ++ h.name ++ h.back

def Heading.text (h : Heading) : String :=
  h.signature ++ " \x7b"

def Balanced (code : Code) : Prop :=
  ∃ heads, Outline code heads

variable {a b body : Code} {as bs : List String}

theorem infix_block (h : a <:+: body) (first last : String) : a <:+: block first body last := by
  refine h.trans ⟨[.opening first], [.closing last], ?_⟩
  simp [block]

theorem Outline.append (ha : Outline a as) (hb : Outline b bs) : Outline (a ++ b) (as ++ bs) := by
  induction ha with
  | nil => exact hb
  | line _ ih => exact .line ih
  | block hinside _ _ ih =>
      rw [List.cons_append, List.append_assoc, List.cons_append]
      exact .block hinside ih

theorem outline_line (text : String) : Outline (line text) [] :=
  .line .nil

theorem outline_blank : Outline blank [] :=
  outline_line ""

theorem outline_block {first last : String} (h : Balanced body) :
    Outline (block first body last) [first] := by
  obtain ⟨inner, h⟩ := h
  exact .block h .nil

theorem outline_flatMap {α : Type} {f : α → Code} {g : α → List String} {xs : List α}
    (h : ∀ x ∈ xs, Outline (f x) (g x)) : Outline (xs.flatMap f) (xs.flatMap g) := by
  induction xs with
  | nil => exact .nil
  | cons x xs ih =>
      apply (h x List.mem_cons_self).append
      apply ih
      intro y hy
      exact h y (List.mem_cons_of_mem x hy)

theorem balanced_nil : Balanced [] :=
  ⟨[], .nil⟩

theorem balanced_line (text : String) : Balanced (line text) :=
  ⟨[], outline_line text⟩

theorem balanced_block {first last : String} (h : Balanced body) :
    Balanced (block first body last) :=
  ⟨[first], outline_block h⟩

theorem Balanced.append (ha : Balanced a) (hb : Balanced b) : Balanced (a ++ b) := by
  obtain ⟨as, ha⟩ := ha
  obtain ⟨bs, hb⟩ := hb
  exact ⟨as ++ bs, ha.append hb⟩

theorem balanced_ite {c : Prop} [Decidable c] (ha : Balanced a) (hb : Balanced b) :
    Balanced (if c then a else b) := by
  split
  · exact ha
  · exact hb

theorem balanced_flatMap {α : Type} {f : α → Code} {xs : List α} (h : ∀ x, Balanced (f x)) :
    Balanced (xs.flatMap f) := by
  induction xs with
  | nil => exact balanced_nil
  | cons x xs ih => exact (h x).append ih

theorem balanced_ofSteps {α : Type} {field? : α → Option FieldPlan} {other : String}
    {lines : α → String → Code} (h : ∀ step name, Balanced (lines step name)) (steps : List α)
    (identifiers : List String) : Balanced (ofSteps field? other lines steps identifiers) :=
  ofSteps_induction balanced_nil Balanced.append h steps identifiers

end WireSchema.Code

namespace WireSchema.Rust

open Code

theorem balanced_marshalBlock (className : String) (step : WireStep) (name : String) :
    Balanced (marshalBlock className step name) := by
  cases step with
  | parent c => exact balanced_line _
  | field f =>
      rw [marshalBlock]
      cases f.layout with
      | scalar t => exact balanced_line _
      | lengthOf t list => exact (balanced_block (balanced_line _)).append (balanced_line _)
      | nested c => exact balanced_line _
      | fixedScalars t n => exact balanced_block (balanced_line _)
      | fixedNested c n => exact balanced_block (balanced_line _)
      | scalarList t count => exact balanced_block (balanced_line _)
      | nestedList c count => exact balanced_block (balanced_line _)

theorem balanced_readList (className field name : String) (count : CountSource) {element : Code}
    (h : Balanced element) : Balanced (readList className field name count element) :=
  ((balanced_block (balanced_line _)).append (balanced_line _)).append (balanced_block h)

theorem balanced_unmarshalBlock (className : String) (step : WireStep) (name : String) :
    Balanced (unmarshalBlock className step name) := by
  cases step with
  | parent c => exact balanced_line _
  | field f =>
      rw [unmarshalBlock]
      cases f.layout with
      | scalar t => exact balanced_line _
      | lengthOf t list => exact balanced_line _
      | nested c => exact balanced_line _
      | fixedScalars t n => exact balanced_block (balanced_line _)
      | fixedNested c n => exact balanced_block (balanced_line _)
      | scalarList t count => exact balanced_readList _ _ _ _ (balanced_line _)
      | nestedList c count =>
          apply balanced_readList
          exact ((balanced_line _).append (balanced_line _)).append (balanced_line _)

theorem balanced_marshalBody (p : Plan) (names : List String) : Balanced (marshalBody p names) := by
  apply Balanced.append _ (balanced_line _)
  exact balanced_ofSteps (balanced_marshalBlock p.name) _ _

theorem balanced_unmarshalBody (p : Plan) (names : List String) :
    Balanced (unmarshalBody p names) := by
  apply Balanced.append _ (balanced_line _)
  exact balanced_ofSteps (balanced_unmarshalBlock p.name) _ _

theorem balanced_sizeBlock (term : SizeTerm) (name : String) : Balanced (sizeBlock term name) := by
  cases term <;> exact balanced_line _

theorem balanced_sizeBody (p : Plan) (names : List String) (terms : List SizeTerm) :
    Balanced (sizeBody p names terms) := by
  apply balanced_ite (balanced_line _)
  apply Balanced.append _ (balanced_line _)
  apply (balanced_line _).append
  apply balanced_flatMap
  intro term
  exact balanced_sizeBlock term _

end WireSchema.Rust

namespace WireSchema.Java

open Code

theorem balanced_slotsBlock (f : FieldPlan) (name : String) : Balanced (slotsBlock f name) := by
  rw [slotsBlock]
  split
  · exact balanced_block (balanced_line _)
  · exact balanced_nil

theorem balanced_constructorBody (p : Plan) (names : List String) :
    Balanced (constructorBody p names) := by
  apply Balanced.append
  · apply balanced_flatMap
    rintro ⟨f, name⟩
    exact balanced_slotsBlock f name
  · apply balanced_flatMap
    intro step
    cases step with
    | assign a => exact balanced_line _
    | parent c => exact balanced_nil
    | field f init => exact balanced_nil

theorem balanced_sizeBlock (term : SizeTerm) (name : String) : Balanced (sizeBlock term name) := by
  cases term with
  | parent c => exact balanced_line _
  | bytes field count => exact balanced_line _
  | nested field c => exact balanced_line _
  | perElement field width => exact balanced_line _
  | elementSum field c => exact balanced_block (balanced_line _)

theorem balanced_sizeBody (p : Plan) (names : List String) (terms : List SizeTerm) :
    Balanced (sizeBody p names terms) := by
  apply Balanced.append _ (balanced_line _)
  apply (balanced_line _).append
  apply balanced_flatMap
  intro term
  exact balanced_sizeBlock term _

theorem balanced_marshalBlock (step : WireStep) (name : String) :
    Balanced (marshalBlock step name) := by
  cases step with
  | parent c => exact balanced_line _
  | field f =>
      rw [marshalBlock]
      cases f.layout with
      | scalar t => exact balanced_line _
      | lengthOf t list => exact balanced_line _
      | nested c => exact balanced_line _
      | fixedScalars t n => exact balanced_block (balanced_line _)
      | fixedNested c n => exact balanced_block (balanced_line _)
      | scalarList t count => exact balanced_block (balanced_line _)
      | nestedList c count => exact balanced_block (balanced_line _)

theorem balanced_marshalBody (p : Plan) (names : List String) : Balanced (marshalBody p names) := by
  exact balanced_ofSteps balanced_marshalBlock _ _

theorem balanced_openListRead (owner name : String) {f : FieldPlan} {count : CountSource}
    {element : Code} (hcount : f.layout.count? = some count) (helement : Balanced element) :
    Balanced (openListRead owner f name ++ element ++ closed) := by
  simp only [openListRead, hcount, List.append_assoc, List.singleton_append]
  apply (balanced_ite (balanced_line _) balanced_nil).append
  exact (balanced_line _).append (balanced_block helement)

theorem balanced_unmarshalBlock (owner : String) (step : WireStep) (name : String) :
    Balanced (unmarshalBlock owner step name) := by
  cases step with
  | parent c => exact balanced_line _
  | field f =>
      rw [unmarshalBlock]
      cases hlayout : f.layout with
      | scalar t => exact balanced_line _
      | lengthOf t list => exact balanced_line _
      | nested c => exact balanced_line _
      | fixedScalars t n => exact balanced_block (balanced_line _)
      | fixedNested c n => exact balanced_block (balanced_line _)
      | scalarList t count =>
          have hcount : f.layout.count? = some count := by rw [hlayout, Layout.count?]
          exact balanced_openListRead _ _ hcount (balanced_line _)
      | nestedList c count =>
          have hcount : f.layout.count? = some count := by rw [hlayout, Layout.count?]
          apply balanced_openListRead _ _ hcount
          exact ((balanced_line _).append (balanced_line _)).append (balanced_line _)

theorem balanced_unmarshalBody (p : Plan) (names : List String) :
    Balanced (unmarshalBody p names) := by
  exact balanced_ofSteps (balanced_unmarshalBlock p.name) _ _

theorem balanced_equalityBlock (term : EqualityTerm) (name : String) :
    Balanced (equalityBlock term name) := by
  cases term <;> exact balanced_line _

theorem balanced_equalityBody (p : Plan) (names : List String) : Balanced (equalityBody p names) := by
  apply Balanced.append _ (balanced_line _)
  apply Balanced.append
  · exact (balanced_line _).append (balanced_line _)
  · exact balanced_ofSteps balanced_equalityBlock _ _

end WireSchema.Java
