import Mathlib.Data.List.Nodup
import WireSchema.Schema.Registry

namespace WireSchema

theorem ClassDef.fieldIndex?_of_field? {c : ClassDef} {n : String} {f : Field}
    (h : c.field? n = some f) : ∃ i, c.fieldIndex? n = some i ∧ c.fields[i]? = some f := by
  rw [field?, List.find?_eq_bind_findIdx?_getElem?] at h
  exact Option.bind_eq_some_iff.1 h

theorem ClassDef.name_of_field? {c : ClassDef} {n : String} {f : Field} (h : c.field? n = some f) :
    f.name = n := by
  simpa using List.find?_some (p := fun f : Field => f.name == n) h

namespace Registry

variable {r : Registry}

theorem find?_eq_some {name : String} {c : ClassDef} :
    r.find? name = some c ↔ c ∈ r.classes ∧ c.name = name := by
  constructor
  · intro h
    exact ⟨List.mem_of_find?_eq_some h, by simpa using List.find?_some h⟩
  · rintro ⟨hc, rfl⟩
    cases h : r.find? c.name with
    | none => simpa using List.find?_eq_none.1 h c hc
    | some d =>
        have hname : d.name = c.name := by simpa using List.find?_some h
        have hd := List.mem_of_find?_eq_some h
        exact congrArg some (List.inj_on_of_nodup_map r.nodup hd hc hname)

theorem contains_iff {name : String} : r.contains name ↔ ∃ c, r.find? name = some c := by
  simp [contains, find?_eq_some]

def ancestor? (r : Registry) : Nat → ClassDef → Option ClassDef
  | 0, c => some c
  | depth + 1, c => (r.parentOf? c).bind (r.ancestor? depth)

section Walk

variable {passed : List String} {next : Option ClassDef} {c a : ClassDef}

theorem lineageFrom_of_mem (h : c.name ∈ passed) : r.lineageFrom passed (some c) = [] := by
  rw [lineageFrom, dif_pos h]

theorem lineageFrom_of_notMem (h : c.name ∉ passed) : r.lineageFrom passed (some c) =
    c :: r.lineageFrom (passed ++ [c.name]) (r.parentOf? c) := by
  rw [lineageFrom, dif_neg h]

theorem ancestor?_of_lineageFrom {depth : Nat}
    (h : (r.lineageFrom passed next)[depth]? = some a) : next.bind (r.ancestor? depth) = some a := by
  fun_induction lineageFrom r passed next generalizing depth with
  | case1 => cases h
  | case2 => cases h
  | case3 passed c hnew ih =>
      cases depth with
      | zero => exact h
      | succ depth => exact ih h

theorem ancestor?_of_lineage {depth : Nat} (h : (r.lineage c)[depth]? = some a) :
    r.ancestor? depth c = some a :=
  ancestor?_of_lineageFrom h

theorem lineage_eq_cons (r : Registry) (c : ClassDef) : ∃ rest, r.lineage c = c :: rest :=
  ⟨_, lineageFrom_of_notMem List.not_mem_nil⟩

/-- The class at which the walk upward from a class comes back to where it has been, which is the one
behind its lineage. There is none if the walk comes to a class without a declared parent. -/
def revisited? (r : Registry) (c : ClassDef) : Option ClassDef :=
  r.ancestor? (r.lineage c).length c

end Walk

theorem ancestor?_add (r : Registry) (i j : Nat) (d : ClassDef) :
    r.ancestor? (i + j) d = (r.ancestor? i d).bind (r.ancestor? j) := by
  induction i generalizing d with
  | zero => simp [ancestor?]
  | succ i ih =>
      rw [Nat.succ_add, ancestor?, ancestor?, Option.bind_assoc]
      apply congrArg (r.parentOf? d).bind
      funext b
      exact ih b

theorem mem_classes_of_ancestor? {c a : ClassDef} {depth : Nat} (hc : c ∈ r.classes)
    (h : r.ancestor? depth c = some a) : a ∈ r.classes := by
  induction depth generalizing c with
  | zero => cases h; exact hc
  | succ depth ih =>
      obtain ⟨q, hq, h⟩ := Option.bind_eq_some_iff.1 h
      obtain ⟨p, -, hp⟩ := Option.bind_eq_some_iff.1 hq
      exact ih (find?_eq_some.1 hp).1 h

theorem findSome?_field {name : String} {cs : List ClassDef} {k : Nat} {found : Resolved} :
    ((cs.zipIdx k).findSome? fun x =>
      (x.1.field? name).map fun field => (⟨x.1, field, x.2⟩ : Resolved)) = some found ↔
      ∃ i, found.depth = k + i ∧ cs[i]? = some found.owner ∧
        found.owner.field? name = some found.field ∧
        ∀ j < i, ∀ a, cs[j]? = some a → a.field? name = none := by
  induction cs generalizing k with
  | nil => simp
  | cons c cs ih =>
      rw [List.zipIdx_cons, List.findSome?_cons]
      cases hf : c.field? name with
      | some f =>
          simp only [Option.map_some, Option.some.injEq]
          constructor
          · rintro rfl
            exact ⟨0, by simp, rfl, hf, by simp⟩
          · rintro ⟨i, hd, ho, hfield, hbefore⟩
            cases i with
            | zero =>
                cases ho
                rw [hf] at hfield
                obtain ⟨owner, field, depth⟩ := found
                simp_all
            | succ i =>
                have := hbefore 0 (by omega) c rfl
                rw [hf] at this
                cases this
      | none =>
          simp only [Option.map_none]
          rw [ih]
          constructor
          · rintro ⟨i, hd, ho, hfield, hbefore⟩
            refine ⟨i + 1, by omega, ho, hfield, ?_⟩
            intro j hj a ha
            cases j with
            | zero => cases ha; exact hf
            | succ j => exact hbefore j (by omega) a ha
          · rintro ⟨i, hd, ho, hfield, hbefore⟩
            cases i with
            | zero =>
                cases ho
                rw [hf] at hfield
                cases hfield
            | succ i =>
                exact ⟨i, by omega, ho, hfield,
                  fun j hj a ha => hbefore (j + 1) (by omega) a ha⟩

theorem resolve?_eq_some {c : ClassDef} {name : String} {found : Resolved} :
    r.resolve? c name = some found ↔
      (r.lineage c)[found.depth]? = some found.owner ∧ found.owner.field? name = some found.field ∧
      ∀ d < found.depth, ∀ a, (r.lineage c)[d]? = some a → a.field? name = none := by
  refine (findSome?_field (k := 0)).trans ?_
  constructor
  · rintro ⟨i, hd, h⟩
    obtain rfl : found.depth = i := by omega
    exact h
  · intro h
    exact ⟨found.depth, by omega, h⟩

theorem resolve?_of_field? {c : ClassDef} {name : String} {f : Field}
    (h : c.field? name = some f) : r.resolve? c name = some ⟨c, f, 0⟩ := by
  obtain ⟨rest, hrest⟩ := r.lineage_eq_cons c
  exact resolve?_eq_some.2 ⟨by simp [hrest], h, by simp⟩

theorem field?_of_resolve? {c : ClassDef} {name : String} {found : Resolved}
    (h : r.resolve? c name = some found) (hd : found.depth = 0) :
    c.field? name = some found.field := by
  obtain ⟨rest, hrest⟩ := r.lineage_eq_cons c
  obtain ⟨ho, hf, -⟩ := resolve?_eq_some.1 h
  rw [hd, hrest] at ho
  cases ho
  exact hf

end Registry

end WireSchema
