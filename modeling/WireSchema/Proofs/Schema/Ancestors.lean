import Mathlib.Data.List.Perm.Subperm
import WireSchema.Proofs.Plan.Build
import WireSchema.Proofs.Schema.Valid

namespace WireSchema

def ClassDef.DeclaresFirst (c : ClassDef) (name : String) (f : Field) : Prop :=
  ∃ before after, c.fields = before ++ f :: after ∧ f.name = name ∧ ∀ g ∈ before, g.name ≠ name

theorem ClassDef.field?_eq_some {c : ClassDef} {name : String} {f : Field} :
    c.field? name = some f ↔ c.DeclaresFirst name f := by
  rw [field?, List.find?_eq_some_iff_append, DeclaresFirst]
  constructor
  · rintro ⟨hname, before, after, hfields, hbefore⟩
    exact ⟨before, after, hfields, by simpa using hname, by simpa using hbefore⟩
  · rintro ⟨before, after, hfields, hname, hbefore⟩
    exact ⟨by simpa using hname, before, after, hfields, by simpa using hbefore⟩

theorem ClassDef.field?_eq_none {c : ClassDef} {name : String} :
    c.field? name = none ↔ ∀ f ∈ c.fields, f.name ≠ name := by
  simp [field?]

namespace Registry

variable {r : Registry} {c : ClassDef}

/-- No class that the way upward from `c` comes to is without a declared parent. -/
def Unending (r : Registry) (c : ClassDef) : Prop :=
  ∀ depth a, r.ancestor? depth c = some a → ∃ p, a.parent? = some p ∧ r.contains p

/-- The way upward from `c` begins with the classes `cs`. -/
def BeginsWith (r : Registry) (c : ClassDef) (cs : List ClassDef) : Prop :=
  ∀ depth a, cs[depth]? = some a → r.ancestor? depth c = some a

theorem parentOf?_isSome {a : ClassDef} :
    (∃ q, r.parentOf? a = some q) ↔ ∃ p, a.parent? = some p ∧ r.contains p := by
  simp only [parentOf?, contains_iff, Option.bind_eq_some_iff]
  constructor
  · rintro ⟨q, p, hp, hq⟩
    exact ⟨p, hp, q, hq⟩
  · rintro ⟨p, hp, q, hq⟩
    exact ⟨q, p, hp, hq⟩

theorem ancestor?_succ (r : Registry) (depth : Nat) (c : ClassDef) :
    r.ancestor? (depth + 1) c = (r.ancestor? depth c).bind r.parentOf? := by
  rw [ancestor?_add]
  congr 1
  funext a
  rw [ancestor?]
  cases r.parentOf? a <;> rfl

theorem unending_iff : r.Unending c ↔ ∀ depth, ∃ a, r.ancestor? depth c = some a := by
  constructor
  · intro h depth
    induction depth with
    | zero => exact ⟨c, rfl⟩
    | succ depth ih =>
        obtain ⟨a, ha⟩ := ih
        obtain ⟨q, hq⟩ := parentOf?_isSome.2 (h depth a ha)
        exact ⟨q, by rw [ancestor?_succ, ha, Option.bind_some, hq]⟩
  · intro h depth a ha
    obtain ⟨q, hq⟩ := h (depth + 1)
    rw [ancestor?_succ, ha, Option.bind_some] at hq
    exact parentOf?_isSome.1 ⟨q, hq⟩

theorem eq_of_name_eq {a b : ClassDef} (ha : a ∈ r.classes) (hb : b ∈ r.classes)
    (h : a.name = b.name) : a = b :=
  List.inj_on_of_nodup_map r.nodup ha hb h

section Walk

variable {passed : List String} {next : Option ClassDef}

theorem name_notMem_passed {a : ClassDef} (ha : a ∈ r.lineageFrom passed next) : a.name ∉ passed := by
  fun_induction lineageFrom r passed next with
  | case1 => cases ha
  | case2 => cases ha
  | case3 passed c hnew ih =>
      rcases List.mem_cons.1 ha with rfl | ha
      · exact hnew
      · exact fun h => ih ha (List.mem_append_left _ h)

theorem nodup_lineageFrom (r : Registry) (passed : List String) (next : Option ClassDef) :
    ((r.lineageFrom passed next).map ClassDef.name).Nodup := by
  fun_induction lineageFrom r passed next with
  | case1 => exact List.nodup_nil
  | case2 => exact List.nodup_nil
  | case3 passed c hnew ih =>
      rw [List.map_cons, List.nodup_cons]
      refine ⟨?_, ih⟩
      intro hmem
      obtain ⟨a, ha, hname⟩ := List.mem_map.1 hmem
      apply name_notMem_passed ha
      simp [hname]

theorem nodup_lineage (r : Registry) (c : ClassDef) : ((r.lineage c).map ClassDef.name).Nodup :=
  nodup_lineageFrom r [] (some c)

theorem name_of_stop {q : ClassDef}
    (h : next.bind (r.ancestor? (r.lineageFrom passed next).length) = some q) :
    q.name ∈ passed ++ (r.lineageFrom passed next).map ClassDef.name := by
  fun_induction lineageFrom r passed next with
  | case1 => cases h
  | case2 passed c hagain =>
      cases h
      simpa using hagain
  | case3 passed c hnew ih => simpa using ih h

end Walk

section Declared

variable (hc : c ∈ r.classes)
include hc

theorem mem_lineage_of_revisited? {q : ClassDef} (h : r.revisited? c = some q) :
    q ∈ r.lineage c := by
  have hname : q.name ∈ (r.lineage c).map ClassDef.name := @name_of_stop r [] (some c) q h
  obtain ⟨a, ha, hsame⟩ := List.mem_map.1 hname
  obtain ⟨depth, hdepth⟩ := List.mem_iff_getElem?.1 ha
  have hdeclared := mem_classes_of_ancestor? hc (ancestor?_of_lineage hdepth)
  rwa [eq_of_name_eq (mem_classes_of_ancestor? hc h) hdeclared hsame.symm]

theorem exists_ancestor_of_revisited? {q : ClassDef} (h : r.revisited? c = some q) (depth : Nat) :
    ∃ a, r.ancestor? depth c = some a := by
  obtain ⟨i, hi⟩ := List.mem_iff_getElem?.1 (mem_lineage_of_revisited? hc h)
  obtain ⟨hlt, -⟩ := List.getElem?_eq_some_iff.1 hi
  have hfirst := ancestor?_of_lineage hi
  induction depth using Nat.strongRecOn with
  | ind depth ih =>
      by_cases hdepth : depth < (r.lineage c).length
      · exact ⟨_, ancestor?_of_lineage (List.getElem?_eq_getElem hdepth)⟩
      · -- as many steps behind the second time as there are behind the first
        obtain ⟨k, rfl⟩ := Nat.exists_eq_add_of_le (Nat.le_of_not_lt hdepth)
        obtain ⟨a, ha⟩ := ih (i + k) (by omega)
        refine ⟨a, ?_⟩
        rw [ancestor?_add] at ha ⊢
        rw [hfirst] at ha
        rwa [← revisited?, h]

theorem unending_iff_revisited? : r.Unending c ↔ ∃ q, r.revisited? c = some q := by
  rw [unending_iff]
  constructor
  · intro h
    exact h (r.lineage c).length
  · rintro ⟨q, hq⟩
    exact exists_ancestor_of_revisited? hc hq

theorem length_lineage_le : (r.lineage c).length ≤ r.classes.length := by
  have hsubset : (r.lineage c).map ClassDef.name ⊆ r.classes.map ClassDef.name := by
    intro name hname
    obtain ⟨a, ha, rfl⟩ := List.mem_map.1 hname
    obtain ⟨depth, hdepth⟩ := List.mem_iff_getElem?.1 ha
    exact List.mem_map_of_mem (mem_classes_of_ancestor? hc (ancestor?_of_lineage hdepth))
  simpa using ((nodup_lineage r c).subperm hsubset).length_le

theorem prefix_lineage {cs : List ClassDef} (hcs : r.BeginsWith c cs) (hnodup : cs.Nodup) :
    cs <+: r.lineage c := by
  have hlength : cs.length ≤ (r.lineage c).length := by
    by_contra hlonger
    have hq := List.getElem?_eq_getElem (l := cs) (i := (r.lineage c).length) (by omega)
    obtain ⟨i, hi⟩ := List.mem_iff_getElem?.1 (mem_lineage_of_revisited? hc (hcs _ _ hq))
    obtain ⟨hlt, -⟩ := List.getElem?_eq_some_iff.1 hi
    have hfirst := List.getElem?_eq_getElem (l := cs) (i := i) (by omega)
    have hsame := (hcs _ _ hfirst).symm.trans (ancestor?_of_lineage hi)
    have heq := hnodup.getElem_inj_iff.1 (Option.some.inj hsame)
    omega
  rw [List.prefix_iff_getElem?]
  intro i hi
  have hline := List.getElem?_eq_getElem (l := r.lineage c) (i := i) (by omega)
  have hsame := (hcs i _ (List.getElem?_eq_getElem hi)).symm.trans (ancestor?_of_lineage hline)
  rw [hline]
  exact hsame.symm

end Declared

theorem cycle_mem_checkAncestors :
    (∃ name, Finding.inheritanceCycle name ∈ r.checkAncestors c) ↔ ∃ q, r.revisited? c = some q := by
  have htop (h : ¬∃ p, c.parent? = some p ∧ r.contains p) : r.revisited? c = none := by
    apply revisited?_of_parentOf?_none
    rw [Option.eq_none_iff_forall_ne_some]
    intro q hq
    exact h (parentOf?_isSome.1 ⟨q, hq⟩)
  rw [checkAncestors, repeated?_name]
  cases hp : c.parent? with
  | none => simp [htop (by simp [hp])]
  | some p =>
      by_cases hknown : r.contains p
      · cases r.revisited? c <;> simp [hknown]
      · simp [hknown, htop (by simp [hp, hknown])]

/-- The ways to go through the ancestors of a declared class agree. The check of its ancestors reports
a cycle, and planning fails on them, exactly if the way upward never ends. Its lineage is the longest
beginning of the way upward in which no class comes twice, and no longer than there are classes. A
field name resolves to the first field of that name in the first class of the lineage that has one. -/
theorem ancestorWalks_agree (hc : c ∈ r.classes) :
    ((∃ name, Finding.inheritanceCycle name ∈ r.checkAncestors c) ↔ r.Unending c) ∧
    ((∃ e, Plan.checkAncestors r c = .error e) ↔ r.Unending c) ∧
    (r.BeginsWith c (r.lineage c) ∧ ((r.lineage c).map ClassDef.name).Nodup ∧
      (∀ cs, r.BeginsWith c cs → cs.Nodup → cs <+: r.lineage c) ∧
      (r.lineage c).length ≤ r.classes.length) ∧
    ∀ name owner f depth, r.resolve? c name = some ⟨owner, f, depth⟩ ↔
      (r.lineage c)[depth]? = some owner ∧ owner.DeclaresFirst name f ∧
      ∀ i < depth, ∀ a, (r.lineage c)[i]? = some a → ∀ g ∈ a.fields, g.name ≠ name := by
  rw [unending_iff_revisited? hc]
  refine ⟨cycle_mem_checkAncestors, ?_, ⟨?_, nodup_lineage r c, ?_, length_lineage_le hc⟩, ?_⟩
  · rw [Plan.checkAncestors_eq]
    cases r.revisited? c <;> simp
  · intro depth a
    exact ancestor?_of_lineage
  · intro cs
    exact prefix_lineage hc
  · intro name owner f depth
    simp only [resolve?_eq_some, ClassDef.field?_eq_some, ClassDef.field?_eq_none]

def sampleHen : ClassDef :=
  ⟨"Hen", "Egg", none, false, [⟨"age", none, .primitive "byte" none none⟩], []⟩

def sampleEgg : ClassDef := ⟨"Egg", "Hen", none, false, [], []⟩

def sampleChick : ClassDef := ⟨"Chick", "Hen", none, false, [], []⟩

/-- A class below two classes that are each other's parents. -/
def sampleLoop : Registry := ⟨[sampleHen, sampleEgg, sampleChick], by decide⟩

theorem beginsWith_sampleLoop :
    sampleLoop.BeginsWith sampleChick [sampleChick, sampleHen, sampleEgg] := by
  intro depth a h
  rcases depth with _ | _ | _ | depth
  · cases h; rfl
  · cases h; decide
  · cases h; decide
  · cases h

theorem ancestorWalks_agree_loop : sampleChick ∈ sampleLoop.classes ∧
    (∃ name, Finding.inheritanceCycle name ∈ sampleLoop.checkAncestors sampleChick) ∧
    (∃ e, Plan.checkAncestors sampleLoop sampleChick = .error e) ∧
    sampleLoop.Unending sampleChick ∧
    sampleLoop.lineage sampleChick = [sampleChick, sampleHen, sampleEgg] ∧
    ∃ f, sampleLoop.resolve? sampleChick "age" = some ⟨sampleHen, f, 1⟩ := by
  have hc : sampleChick ∈ sampleLoop.classes := by decide
  obtain ⟨hcycle, hplan, ⟨-, -, hlongest, hlength⟩, hresolve⟩ := ancestorWalks_agree hc
  have hreported : ∃ name, Finding.inheritanceCycle name ∈ sampleLoop.checkAncestors sampleChick :=
    ⟨"Hen", by decide +kernel⟩
  have hunending := hcycle.1 hreported
  have hlineage : [sampleChick, sampleHen, sampleEgg] = sampleLoop.lineage sampleChick :=
    (hlongest _ beginsWith_sampleLoop (by decide)).eq_of_length_le hlength
  refine ⟨hc, hreported, hplan.2 hunending, hunending, hlineage.symm, ?_⟩
  refine ⟨⟨"age", none, .primitive "byte" none none⟩, (hresolve _ _ _ _).2 ?_⟩
  rw [← hlineage]
  refine ⟨rfl, ⟨[], [], rfl, rfl, by simp⟩, ?_⟩
  intro i hi a ha
  obtain rfl : i = 0 := by omega
  cases ha
  simp [sampleChick]

end Registry

end WireSchema
