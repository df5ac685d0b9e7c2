import WireSchema.Proofs.Plan.Counting
import WireSchema.Proofs.Wire.Instance

namespace WireSchema

open Outcome

namespace Object

/-- The inherited parts of an object from the outermost one on, and the object itself at the end. -/
def chain : Object → List Object
  | mk className none fields => [mk className none fields]
  | mk className (some q) fields => q.chain ++ [mk className (some q) fields]

def HasScalar (o : Object) (depth : Nat) (owner field : String) (t : Primitive) : Prop :=
  ∃ q s, o.atDepth? depth = some q ∧ q.className = owner ∧ q.own? field = some (.scalar s) ∧
    s.type = t

def ownAt? (o : Object) (depth : Nat) (field : String) : Option Value :=
  (o.atDepth? depth).bind (·.own? field)

variable {o q : Object}

theorem ownAt?_succ (h : o.parent = some q) (depth : Nat) (field : String) :
    o.ownAt? (depth + 1) field = q.ownAt? depth field := by
  simp [ownAt?, atDepth?, h]

theorem HasScalar.exists_ownAt? {depth : Nat} {owner field : String} {t : Primitive}
    (h : o.HasScalar depth owner field t) :
    ∃ s, o.ownAt? depth field = some (.scalar s) ∧ s.type = t := by
  obtain ⟨q, s, hq, -, hs, ht⟩ := h
  exact ⟨s, by rw [ownAt?, hq]; exact hs, ht⟩

theorem chain_of_none (h : o.parent = none) : o.chain = [o] := by
  obtain ⟨className, parent, fields⟩ := o
  cases h
  rw [chain]

theorem chain_of_some (h : o.parent = some q) : o.chain = q.chain ++ [o] := by
  obtain ⟨className, parent, fields⟩ := o
  cases h
  rw [chain]

end Object

namespace Codec

variable {c : Codec} {r : Registry} {d a : ClassDef} {o q : Object}

theorem parent?_of_conforms_none (hc : c.plans = Plan.all r) (hd : d ∈ r.classes)
    (ho : c.Conforms d.name o) (hq : o.parent = none) : d.parent? = none := by
  obtain ⟨className, parent, fields⟩ := o
  cases hq
  obtain ⟨-, p, hp, hparent, -⟩ := conforms_mk.1 ho
  rw [(built_of_mem hc hd hp).parent] at hparent
  cases hname : d.parent? with
  | none => rfl
  | some target =>
      rw [hname] at hparent
      cases hparent

theorem parent?_of_conforms_some (hc : c.plans = Plan.all r) (hd : d ∈ r.classes)
    (ho : c.Conforms d.name o) (hq : o.parent = some q) :
    ∃ b, d.parent? = some b.name ∧ r.find? b.name = some b ∧ c.Conforms b.name q := by
  obtain ⟨className, parent, fields⟩ := o
  cases hq
  obtain ⟨-, p, hp, hparent, -⟩ := conforms_mk.1 ho
  have hb := built_of_mem hc hd hp
  rw [hb.parent] at hparent
  cases hname : d.parent? with
  | none =>
      rw [hname] at hparent
      cases hparent
  | some target =>
      rw [hname] at hparent
      obtain ⟨b, hfind⟩ := Registry.contains_iff.1 (hb.known target hname)
      obtain ⟨-, rfl⟩ := Registry.find?_eq_some.1 hfind
      exact ⟨b, rfl, hfind, hparent⟩

theorem className_chain_lineageFrom (hc : c.plans = Plan.all r) (hd : d ∈ r.classes)
    {passed : List String} (hends : r.ancestor? (r.lineageFrom passed (some d)).length d = none)
    (ho : c.Conforms d.name o) : o.chain.map Object.className =
      ((r.lineageFrom passed (some d)).map ClassDef.name).reverse := by
  have hnew {e : ClassDef} (passed : List String)
      (hends : r.ancestor? (r.lineageFrom passed (some e)).length e = none) : e.name ∉ passed := by
    intro hagain
    rw [Registry.lineageFrom_of_mem hagain] at hends
    cases hends
  induction o using Object.chain.induct generalizing passed d with
  | case1 className fields =>
      have hnone := parent?_of_conforms_none hc hd ho rfl
      rw [Object.chain_of_none rfl, Registry.lineageFrom_of_notMem (hnew passed hends),
        Registry.parentOf?, hnone, Option.bind_none, Registry.lineageFrom]
      simpa using ho.1
  | case2 className q fields ih =>
      obtain ⟨b, hname, hfind, hq⟩ := parent?_of_conforms_some hc hd ho rfl
      have hb : r.parentOf? d = some b := by rw [Registry.parentOf?, hname, Option.bind_some, hfind]
      have hwalk := Registry.lineageFrom_of_notMem (r := r) (hnew passed hends)
      rw [hb] at hwalk
      rw [hwalk, List.length_cons, Registry.ancestor?, hb, Option.bind_some] at hends
      rw [hwalk]
      rw [Object.chain_of_some rfl, List.map_append, ih (Registry.find?_eq_some.1 hfind).1 hends hq]
      simpa using ho.1

theorem className_chain_of_conforms (hc : c.plans = Plan.all r) (hd : d ∈ r.classes)
    (hvalid : d.Valid r) (ho : c.Conforms d.name o) :
    o.chain.map Object.className = ((r.lineage d).map ClassDef.name).reverse :=
  className_chain_lineageFrom hc hd hvalid.ancestors ho

theorem exists_atDepth (hc : c.plans = Plan.all r) {depth : Nat} (hd : d ∈ r.classes)
    (ha : r.ancestor? depth d = some a) (ho : c.Conforms d.name o) :
    ∃ q, o.atDepth? depth = some q ∧ c.Conforms a.name q := by
  induction depth generalizing d o with
  | zero =>
      cases ha
      exact ⟨o, rfl, ho⟩
  | succ depth ih =>
      obtain ⟨b, hb, ha⟩ := Option.bind_eq_some_iff.1 ha
      cases hq : o.parent with
      | none =>
          simp [Registry.parentOf?, parent?_of_conforms_none hc hd ho hq] at hb
      | some q =>
          obtain ⟨b', hname, hfind, hconforms⟩ := parent?_of_conforms_some hc hd ho hq
          simp only [Registry.parentOf?, hname, Option.bind_some, hfind, Option.some.injEq] at hb
          subst hb
          obtain ⟨part, hpart, hconforms⟩ := ih (Registry.find?_eq_some.1 hfind).1 ha hconforms
          exact ⟨part, by simpa [Object.atDepth?, hq] using hpart, hconforms⟩

theorem hasScalar_of_resolve? (hc : c.plans = Plan.all r) (hd : d ∈ r.classes) {n : String}
    {found : Resolved} {t : Primitive} (hfound : r.resolve? d n = some found)
    (ht : found.field.primitive? = some t) (ho : c.Conforms d.name o) :
    o.HasScalar found.depth found.owner.name n t := by
  obtain ⟨hline, hfield, -⟩ := Registry.resolve?_eq_some.1 hfound
  have hancestor := Registry.ancestor?_of_lineage hline
  have howner := Registry.mem_classes_of_ancestor? hd hancestor
  obtain ⟨q, hq, hconforms⟩ := exists_atDepth hc hd hancestor ho
  obtain ⟨className, parent, fields⟩ := q
  obtain ⟨hclass, p, hp, -, hfields⟩ := conforms_mk.1 hconforms
  obtain ⟨i, l, hl, hplan⟩ := (built_of_mem hc howner hp).field?_of_class hfield
  obtain ⟨v, hv, hfits⟩ := lookup_of_forall₂ (R := fun f v => c.Fits f.layout v) hfields hplan
  obtain ⟨hlist, htype⟩ := scalarType?_of_layout hl ht
  obtain ⟨s, rfl, hs⟩ := hfits.exists_scalar hlist htype
  exact ⟨_, s, hq, hclass, hv, hs⟩

theorem hasScalar_of_count (hc : c.plans = Plan.all r) {name : String} {p : Plan} {f : FieldPlan}
    {count : CountSource} (hp : c.plan name = .ok p) (hf : f ∈ p.fields)
    (hcount : f.layout.count? = some count) (ho : c.Conforms name o) :
    o.HasScalar count.depth count.owner count.field count.type ∧ count.type.isFloat = false := by
  obtain ⟨d, hd, rfl, hb⟩ := built_of_plan hc hp
  obtain ⟨i, hi⟩ := List.mem_iff_getElem?.1 hf
  obtain ⟨g, -, hlayout, -, -⟩ := hb.field_of_plan hi
  obtain ⟨_, n, _, -, found, t, hfound, -, hinteger, rfl⟩ := hlayout.counted hcount
  obtain ⟨hprimitive, hfloat⟩ := Option.filter_eq_some_iff.1 hinteger
  exact ⟨hasScalar_of_resolve? hc hd hfound hprimitive ho, by simpa using hfloat⟩

theorem hasScalar_of_assignment (hc : c.plans = Plan.all r) {name : String} {p : Plan}
    {x : Assignment} (hp : c.plan name = .ok p) (hx : x ∈ p.assignments)
    (ho : c.Conforms name o) : o.HasScalar x.depth x.owner x.field x.type := by
  obtain ⟨d, hd, rfl, hb⟩ := built_of_plan hc hp
  obtain ⟨i, -, hi⟩ := exists_left_of_mem hb.assignments hx
  obtain ⟨found, t, l, hfound, ht, -, rfl⟩ := Plan.assignment_eq_ok.1 hi
  exact hasScalar_of_resolve? hc hd hfound ht ho

end Codec

end WireSchema
