import WireSchema.Proofs.Object.Parts
import WireSchema.Proofs.Wire.Encoding

namespace WireSchema

open Outcome

namespace Value

def IsElement (l : Layout) : Value → Prop
  | .scalar s => l.scalarType? = some s.type
  | .object q => l.className? = some q.className
  | .list _ => False

/-- An element of the layout, or, if it is a list, elements of it; as many as it says if it is a
fixed list. -/
def HasShape (l : Layout) : Value → Prop
  | .list vs => l.isList ∧ (∀ n, l.fixedLength? = some n → vs.length = n) ∧ ∀ v ∈ vs, v.IsElement l
  | v => l.isList = false ∧ v.IsElement l

end Value

namespace Codec

def Shaped (c : Codec) (o : Object) : Prop :=
  ∃ p, c.plan o.className = .ok p ∧ o.parent.map Object.className = p.parent ∧
    List.Forall₂ (fun f e => e.1 = f.name ∧ e.2.HasShape f.layout) p.fields o.fields

/-- The object, and each object inside it, has the parts that the plan of its class says. -/
def Conforms (c : Codec) (name : String) (o : Object) : Prop :=
  o.className = name ∧ o.Every c.Shaped

def FitsElement (c : Codec) (l : Layout) (v : Value) : Prop :=
  v.IsElement l ∧ ∀ q ∈ v.parts, q.Every c.Shaped

def Fits (c : Codec) (l : Layout) (v : Value) : Prop :=
  v.HasShape l ∧ ∀ q ∈ v.parts, q.Every c.Shaped

def FitsParent (c : Codec) : Option String → Option Object → Prop
  | none, none => True
  | some name, some q => c.Conforms name q
  | _, _ => False

variable {c : Codec} {name : String} {l : Layout}

theorem fitsElement_scalar {s : Scalar} :
    c.FitsElement l (.scalar s) ↔ l.scalarType? = some s.type := by
  simp [FitsElement, Value.IsElement, Value.parts]

theorem fitsElement_object {q : Object} :
    c.FitsElement l (.object q) ↔ ∃ name, l.className? = some name ∧ c.Conforms name q := by
  simp only [FitsElement, Value.IsElement, Value.parts, List.mem_singleton, forall_eq, Conforms]
  grind

theorem fits_scalar {s : Scalar} :
    c.Fits l (.scalar s) ↔ l.isList = false ∧ l.scalarType? = some s.type := by
  rw [← fitsElement_scalar (c := c)]
  simp [Fits, FitsElement, Value.HasShape, and_assoc]

theorem fits_object {q : Object} :
    c.Fits l (.object q) ↔ l.isList = false ∧ ∃ name, l.className? = some name ∧ c.Conforms name q := by
  rw [← fitsElement_object]
  simp [Fits, FitsElement, Value.HasShape, and_assoc]

theorem fits_list {vs : List Value} :
    c.Fits l (.list vs) ↔ l.isList ∧ (∀ n, l.fixedLength? = some n → vs.length = n) ∧
      ∀ v ∈ vs, c.FitsElement l v := by
  simp only [Fits, Value.HasShape, FitsElement, Value.parts, List.mem_filterMap, and_assoc]
  refine and_congr_right fun _ => and_congr_right fun _ => ?_
  constructor
  · rintro ⟨hvs, hparts⟩ v hv
    refine ⟨hvs v hv, fun q hq => hparts q ⟨v, hv, ?_⟩⟩
    cases v with
    | object q' => simpa [Value.object?, Value.parts, eq_comm] using hq
    | scalar s => cases hq
    | list ws => cases hvs _ hv
  · intro h
    refine ⟨fun v hv => (h v hv).1, ?_⟩
    rintro q ⟨v, hv, hq⟩
    cases v with
    | object q' =>
        cases hq
        exact (h _ hv).2 q (by simp)
    | scalar s => cases hq
    | list ws => cases hq

theorem FitsElement.exists_object {v : Value} (h : c.FitsElement l v) (hl : l.scalarType? = none) :
    ∃ q target, v = .object q ∧ l.className? = some target ∧ c.Conforms target q := by
  cases v with
  | scalar s => simp [fitsElement_scalar, hl] at h
  | object q =>
      obtain ⟨target, htarget, hq⟩ := fitsElement_object.1 h
      exact ⟨q, target, rfl, htarget, hq⟩
  | list vs => cases h.1

theorem FitsElement.exists_scalar {v : Value} (h : c.FitsElement l v) (hl : l.className? = none) :
    ∃ s, v = .scalar s := by
  cases v with
  | scalar s => exact ⟨s, rfl⟩
  | object q => simp [fitsElement_object, hl] at h
  | list vs => cases h.1

theorem Fits.element {v : Value} (h : c.Fits l v) (hl : l.isList = false) : c.FitsElement l v := by
  cases v with
  | scalar s => exact ⟨h.1.2, h.2⟩
  | object q => exact ⟨h.1.2, h.2⟩
  | list vs => simp [fits_list, hl] at h

theorem Fits.exists_scalar {v : Value} {t : Primitive} (h : c.Fits l v) (hl : l.isList = false)
    (ht : l.scalarType? = some t) : ∃ s, v = .scalar s ∧ s.type = t := by
  have hn : l.className? = none := by
    cases l <;> first | rfl | cases ht
  obtain ⟨s, rfl⟩ := (h.element hl).exists_scalar hn
  rw [fits_scalar, ht] at h
  exact ⟨s, rfl, (Option.some.inj h.2).symm⟩

theorem Fits.exists_list {v : Value} (h : c.Fits l v) (hl : l.isList) : ∃ vs, v = .list vs ∧
    (∀ n, l.fixedLength? = some n → vs.length = n) ∧ ∀ w ∈ vs, c.FitsElement l w := by
  cases v with
  | scalar s => simp [fits_scalar, hl] at h
  | object q => simp [fits_object, hl] at h
  | list vs => exact ⟨vs, rfl, (fits_list.1 h).2⟩

theorem fitsParent_iff {parent : Option String} {part : Option Object} :
    c.FitsParent parent part ↔
      part.map Object.className = parent ∧ ∀ q, part = some q → q.Every c.Shaped := by
  cases parent <;> cases part <;> simp [FitsParent, Conforms]

theorem forall₂_and_right {α β : Type} {R : α → β → Prop} {P : β → Prop} {xs : List α}
    {ys : List β} :
    List.Forall₂ (fun x y => R x y ∧ P y) xs ys ↔ List.Forall₂ R xs ys ∧ ∀ y ∈ ys, P y := by
  constructor
  · intro h
    induction h with
    | nil => simp
    | cons h _ ih => exact ⟨.cons h.1 ih.1, by simpa using ⟨h.2, ih.2⟩⟩
  · rintro ⟨h, hP⟩
    induction h with
    | nil => exact .nil
    | cons h _ ih =>
        rw [List.forall_mem_cons] at hP
        exact .cons ⟨h, hP.1⟩ (ih hP.2)

theorem conforms_mk {className : String} {parent : Option Object} {fields : List (String × Value)} :
    c.Conforms name (.mk className parent fields) ↔ className = name ∧
      ∃ p, c.plan name = .ok p ∧ c.FitsParent p.parent parent ∧
        List.Forall₂ (fun f e => e.1 = f.name ∧ c.Fits f.layout e.2) p.fields fields := by
  have hfits (fs : List FieldPlan) :
      List.Forall₂ (fun f e => e.1 = f.name ∧ c.Fits f.layout e.2) fs fields ↔
        List.Forall₂ (fun f e => e.1 = f.name ∧ e.2.HasShape f.layout) fs fields ∧
          ∀ e ∈ fields, ∀ q ∈ e.2.parts, q.Every c.Shaped := by
    rw [← forall₂_and_right]
    simp only [Fits, and_assoc]
  simp only [hfits, fitsParent_iff]
  constructor
  · rintro ⟨rfl, h⟩
    obtain ⟨p, hp, hparent, hfields⟩ := h.here
    exact ⟨rfl, p, hp, ⟨hparent, fun q => h.parent⟩, hfields, fun e he q => h.field he⟩
  · rintro ⟨rfl, p, hp, ⟨hparent, hpart⟩, hfields, hparts⟩
    refine ⟨rfl, .intro ⟨p, hp, hparent, hfields⟩ ?_⟩
    intro q hq
    rcases Object.mem_parts.1 hq with hq | ⟨e, he, hq⟩
    · exact hpart q hq
    · exact hparts e he q hq

end Codec

end WireSchema
