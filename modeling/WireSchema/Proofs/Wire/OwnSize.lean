import WireSchema.Proofs.Wire.Measure

namespace WireSchema

open Outcome

def Layout.Varies : Layout → Prop
  | nested _ | fixedNested .. | scalarList .. | nestedList .. => True
  | scalar _ | lengthOf .. | fixedScalars .. => False

def SizeTerm.addTo (size : Nat) : SizeTerm → Option Nat
  | parent _ => some size
  | bytes _ count => some (size + count)
  | _ => none

namespace Plan

variable {p : Plan}

theorem sizeTerms_eq_ok {terms : List SizeTerm} : p.sizeTerms = .ok terms ↔ ∃ own,
    List.Forall₂ (fun f term => f.sizeTerm p.name = .ok term) p.fields own ∧
      terms = p.parent.toList.map .parent ++ own := by
  rw [sizeTerms, bind_eq_ok]
  simp only [mapM_eq_ok, pure_eq_ok, Except.ok.injEq, eq_comm (b := terms)]

theorem foldlM_parent (parent : Option String) (size : Nat) :
    (parent.toList.map SizeTerm.parent).foldlM SizeTerm.addTo size = some size := by
  cases parent <;> rfl

theorem ownFixedSize?_eq {own : List SizeTerm}
    (h : p.sizeTerms = .ok (p.parent.toList.map .parent ++ own)) :
    p.ownFixedSize? = own.foldlM SizeTerm.addTo 0 := by
  have hterms : p.ownFixedSize? =
      (p.parent.toList.map SizeTerm.parent ++ own).foldlM SizeTerm.addTo 0 := by
    rw [ownFixedSize?, h]
    rfl
  rw [hterms, List.foldlM_append, foldlM_parent]
  rfl

theorem foldlM_addTo_eq_none {className : String} {fs : List FieldPlan} {own : List SizeTerm}
    (h : List.Forall₂ (fun f term => f.sizeTerm className = .ok term) fs own) (size : Nat) :
    own.foldlM SizeTerm.addTo size = none ↔ ∃ f ∈ fs, f.layout.Varies := by
  induction h generalizing size with
  | nil => simp
  | @cons f term fs own hterm _ ih =>
      rw [List.foldlM_cons, List.exists_mem_cons_iff]
      rw [FieldPlan.sizeTerm] at hterm
      cases hl : f.layout with
      | scalar t | lengthOf t _ | fixedScalars t n =>
          simp only [hl] at hterm
          cases hterm
          simpa [SizeTerm.addTo, Layout.Varies] using ih _
      | nested target | scalarList t count | nestedList target count =>
          simp only [hl] at hterm
          cases hterm
          simp [SizeTerm.addTo, Layout.Varies]
      | fixedNested target n =>
          simp only [hl] at hterm
          cases hterm

theorem ownFixedSize?_eq_none : p.ownFixedSize? = none ↔ ∃ f ∈ p.fields, f.layout.Varies := by
  cases h : p.sizeTerms with
  | error e =>
      obtain ⟨⟨f, hf, target, n, hl⟩, -⟩ := sizeTerms_eq_error h
      rw [ownFixedSize?, h]
      exact iff_of_true rfl ⟨f, hf, by rw [hl]; trivial⟩
  | ok terms =>
      obtain ⟨own, hown, rfl⟩ := sizeTerms_eq_ok.1 h
      rw [ownFixedSize?_eq h]
      exact foldlM_addTo_eq_none hown 0

end Plan

namespace Codec

variable {c : Codec} {o : Object} {p : Plan} {bs : Bytes}

theorem exists_of_encode (hp : c.plan o.className = .ok p) (h : c.encode o = .ok bs) :
    ∃ front own, bs = front ++ own.flatten ∧
      List.Forall₂ (fun f part => c.encodeField o f = .ok part) p.fields own ∧
      (p.parent = none → front = []) ∧
      (p.parent.isSome → ∃ part, o.parent = some part ∧ c.encode part = .ok front) := by
  obtain ⟨p', parts, hp', hparts, rfl⟩ := c.encode_eq_ok.1 h
  rw [hp] at hp'
  cases hp'
  rw [Plan.wireSteps] at hparts
  cases hparent : p.parent with
  | none =>
      rw [hparent] at hparts
      exact ⟨[], parts, rfl, List.forall₂_map_left_iff.1 hparts, by simp, by simp⟩
  | some target =>
      rw [hparent] at hparts
      obtain ⟨front, own, hfront, hown, rfl⟩ := List.forall₂_cons_left_iff.1 hparts
      obtain ⟨part, hpart, hfront⟩ := bind_eq_ok.1 hfront
      exact ⟨front, own, by simp, List.forall₂_map_left_iff.1 hown, by simp,
        fun _ => ⟨part, Object.needParent_eq_ok.1 hpart, hfront⟩⟩

theorem length_of_bytes {f : FieldPlan} {className field : String} {count : Nat} {part : Bytes}
    (hterm : f.sizeTerm className = .ok (.bytes field count)) (h : c.encodeField o f = .ok part) :
    part.length = count := by
  have ih : c.PartsAgree o := fun _ _ _ hq => agrees_of_encode hq
  rcases agrees_field ih hterm h with ⟨hsize, -⟩ | ⟨⟨_, _, _, hsize⟩, -⟩
  · exact (Except.ok.inj hsize).symm
  · cases hsize

theorem length_of_foldlM {className : String} {fs : List FieldPlan} {own : List SizeTerm}
    {parts : List Bytes} {size k : Nat}
    (hown : List.Forall₂ (fun f term => f.sizeTerm className = .ok term) fs own)
    (hparts : List.Forall₂ (fun f part => c.encodeField o f = .ok part) fs parts)
    (h : own.foldlM SizeTerm.addTo size = some k) : k = size + parts.flatten.length := by
  induction hown generalizing parts size with
  | nil =>
      cases hparts
      cases h
      rfl
  | @cons f term fs own hterm _ ih =>
      obtain ⟨part, parts, hpart, hrest, rfl⟩ := List.forall₂_cons_left_iff.1 hparts
      rw [List.foldlM_cons] at h
      obtain ⟨next, hnext, h⟩ := Option.bind_eq_some_iff.1 h
      have hk : k = next + parts.flatten.length := ih hrest h
      have hsize : next = size + part.length := by
        cases term with
        | bytes field count =>
            rw [length_of_bytes hterm hpart]
            exact (Option.some.inj hnext).symm
        | parent target =>
            rw [FieldPlan.sizeTerm] at hterm
            split at hterm <;> cases hterm
        | nested | perElement | elementSum => cases hnext
      rw [hk, hsize, List.flatten_cons, List.length_append, Nat.add_assoc]

/-- The size of the own fields of a class is unknown exactly if one of them is an object or a list of
another kind than a fixed list of scalars. If it is known, it is what every encoding of an object of
the class has behind that of the inherited part. -/
theorem length_of_ownFixedSize (hp : c.plan o.className = .ok p) :
    (p.ownFixedSize? = none ↔ ∃ f ∈ p.fields, f.layout.Varies) ∧
    ∀ k, p.ownFixedSize? = some k → ∀ bs, c.encode o = .ok bs →
      (p.parent = none → bs.length = k) ∧
      (p.parent.isSome → ∃ part front, o.parent = some part ∧ c.encode part = .ok front ∧
        bs.length = k + front.length) := by
  refine ⟨Plan.ownFixedSize?_eq_none, ?_⟩
  intro k hk bs hbs
  cases hterms : p.sizeTerms with
  | error e =>
      rw [Plan.ownFixedSize?, hterms] at hk
      cases hk
  | ok terms =>
      obtain ⟨own, hown, rfl⟩ := Plan.sizeTerms_eq_ok.1 hterms
      obtain ⟨front, parts, rfl, hparts, hnone, hsome⟩ := exists_of_encode hp hbs
      rw [Plan.ownFixedSize?_eq hterms] at hk
      have hlength : (front ++ parts.flatten).length = k + front.length := by
        rw [length_of_foldlM hown hparts hk, List.length_append]
        omega
      refine ⟨?_, ?_⟩
      · intro hparent
        rw [hlength, hnone hparent]
        rfl
      · intro hparent
        obtain ⟨part, hpart, hfront⟩ := hsome hparent
        exact ⟨part, front, hpart, hfront, hlength⟩

end Codec

def Registry.sampleRecord : ClassDef where
  name := "R"
  parent := "A"
  fields := [⟨"x", none, .primitive "int" none none⟩, ⟨"m", none, .fixedList (.primitive "short") 3 false⟩]

def Registry.sampleFixed : Registry :=
  ⟨[sampleBase, sampleRecord], by decide⟩

def Plan.sampleRecord : Plan where
  name := "R"
  parent := some "A"
  comment := none
  root := false
  fields := [⟨"x", none, .scalar .int, none, false⟩, ⟨"m", none, .fixedScalars .short 3, none, false⟩]
  assignments := []

def Object.sampleRecord : Object :=
  .mk "R" (some (.sampleBase 5 [.object (.sampleBase 7 [])]))
    [("y", .list []), ("m", .list [.scalar ⟨.short, 1⟩, .scalar ⟨.short, 2⟩, .scalar ⟨.short, 3⟩]),
      ("x", .scalar ⟨.int, 4⟩)]

namespace Codec

theorem ofRegistry_sampleFixed (e : Endian) : ofRegistry Registry.sampleFixed e =
    ⟨[("A", .ok Plan.sampleBase), ("R", .ok Plan.sampleRecord)], e⟩ := by
  have hbase : Plan.build Registry.sampleFixed Registry.sampleBase = .ok Plan.sampleBase := by
    decide +kernel
  have hrecord : Plan.build Registry.sampleFixed Registry.sampleRecord = .ok Plan.sampleRecord := by
    decide +kernel
  rw [← hbase, ← hrecord]
  rfl

theorem length_of_ownFixedSize_record :
    (ofRegistry Registry.sampleFixed .big).plan "R" = .ok Plan.sampleRecord ∧
    Plan.sampleRecord.ownFixedSize? = some 10 ∧
    (ofRegistry Registry.sampleFixed .big).encode .sampleRecord =
      .ok [1, 0, 0, 0, 0, 4, 0, 1, 0, 2, 0, 3] ∧
    ∃ part front, Object.sampleRecord.parent = some part ∧
      (ofRegistry Registry.sampleFixed .big).encode part = .ok front ∧ 12 = 10 + front.length := by
  have hplan : (ofRegistry Registry.sampleFixed .big).plan Object.sampleRecord.className =
      .ok Plan.sampleRecord := by
    rw [ofRegistry_sampleFixed]
    rfl
  have hencode : (ofRegistry Registry.sampleFixed .big).encode .sampleRecord =
      .ok [1, 0, 0, 0, 0, 4, 0, 1, 0, 2, 0, 3] := by
    rw [ofRegistry_sampleFixed]
    decide +kernel
  exact ⟨hplan, rfl, hencode, ((length_of_ownFixedSize hplan).2 10 rfl _ hencode).2 rfl⟩

end Codec

end WireSchema
