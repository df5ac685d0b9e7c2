import WireSchema.Proofs.Wire.Inheritance
import WireSchema.Proofs.Wire.Making
import WireSchema.Proofs.Wire.RoundTrip

namespace WireSchema

open Outcome

open Relation (ReflTransGen TransGen)

namespace Registry

variable {r : Registry}

/-- The initial values that a part may be given `depth` steps above a class: those of the class
there, then those of each class below it, down to the class itself. -/
def initialsFrom (r : Registry) : Nat → ClassDef → List (ClassDef × InitialValue)
  | 0, d => d.initial.map (d, ·)
  | depth + 1, d => (r.parentOf? d).toList.flatMap (r.initialsFrom depth) ++ d.initial.map (d, ·)

/-- `a` is the nearest class, from `d` upward, that declares the field. -/
def Finds (r : Registry) (d : ClassDef) (field : String) (a : ClassDef) : Prop :=
  ∃ depth, r.ancestor? depth d = some a ∧ (a.field? field).isSome ∧
    ∀ i < depth, ∀ b, r.ancestor? i d = some b → b.field? field = none

def Sets (r : Registry) (a : ClassDef) (field : String) (x : ClassDef × InitialValue) : Prop :=
  x.2.field = field ∧ r.Finds x.1 field a

/-- The text of the last initial value for the field of `a`, if there is one. -/
def LastGiven (r : Registry) (xs : List (ClassDef × InitialValue)) (a : ClassDef) (field : String) :
    Option String → Prop
  | none => ∀ x ∈ xs, ¬r.Sets a field x
  | some text => ∃ before x after, xs = before ++ x :: after ∧ r.Sets a field x ∧
    x.2.value = text ∧ ∀ y ∈ after, ¬r.Sets a field y

variable {xs : List (ClassDef × InitialValue)} {x : ClassDef × InitialValue} {a b d : ClassDef}
  {field : String}

theorem LastGiven.skip {given : Option String} (h : r.LastGiven xs a field given)
    (hx : ¬r.Sets a field x) : r.LastGiven (xs ++ [x]) a field given := by
  cases given with
  | none =>
      intro y hy
      rcases List.mem_append.1 hy with hy | hy
      · exact h y hy
      · cases List.mem_singleton.1 hy
        exact hx
  | some text =>
      obtain ⟨before, z, after, rfl, hz, htext, hafter⟩ := h
      refine ⟨before, z, after ++ [x], by simp, hz, htext, ?_⟩
      intro y hy
      rcases List.mem_append.1 hy with hy | hy
      · exact hafter y hy
      · cases List.mem_singleton.1 hy
        exact hx

theorem lastGiven_append (hx : r.Sets a field x) :
    r.LastGiven (xs ++ [x]) a field (some x.2.value) :=
  ⟨xs, x, [], rfl, hx, rfl, by simp⟩

theorem finds_iff {found : Resolved} (hfound : r.resolve? d field = some found) :
    r.Finds d field a ↔ found.owner = a := by
  obtain ⟨hline, hfield, hnearer⟩ := resolve?_eq_some.1 hfound
  have howner := ancestor?_of_lineage hline
  have hbelow {i : Nat} {b : ClassDef} (hi : i < found.depth) (hb : r.ancestor? i d = some b) :
      b.field? field = none := by
    obtain ⟨hlength, -⟩ := List.getElem?_eq_some_iff.1 hline
    have hline' := List.getElem?_eq_getElem (l := r.lineage d) (i := i) (by omega)
    have hsame := ancestor?_of_lineage hline'
    rw [hb] at hsame
    cases hsame
    exact hnearer i hi _ hline'
  constructor
  · rintro ⟨depth, ha, hsome, hbefore⟩
    have hdepth : depth = found.depth := by
      by_contra hne
      rcases Nat.lt_or_gt_of_ne hne with hlt | hlt
      · simp [hbelow hlt ha] at hsome
      · simp [hbefore _ hlt _ howner] at hfield
    rw [hdepth, howner] at ha
    exact Option.some.inj ha
  · rintro rfl
    exact ⟨found.depth, howner, by simp [hfield], fun i hi b hb => hbelow hi hb⟩

theorem transGen_of_ancestor? {i : Nat} (hd : d ∈ r.classes) (h : r.ancestor? (i + 1) d = some a) :
    TransGen r.Embeds d.name a.name := by
  induction i generalizing d with
  | zero =>
      obtain ⟨b, hb, h⟩ := Option.bind_eq_some_iff.1 h
      cases h
      obtain ⟨name, hname, hfind⟩ := Option.bind_eq_some_iff.1 hb
      obtain ⟨-, rfl⟩ := find?_eq_some.1 hfind
      exact .single ⟨d, find?_eq_some.2 ⟨hd, rfl⟩, .inl hname⟩
  | succ i ih =>
      obtain ⟨b, hb, h⟩ := Option.bind_eq_some_iff.1 h
      obtain ⟨name, hname, hfind⟩ := Option.bind_eq_some_iff.1 hb
      obtain ⟨hmem, rfl⟩ := find?_eq_some.1 hfind
      exact .head ⟨d, find?_eq_some.2 ⟨hd, rfl⟩, .inl hname⟩ (ih hmem h)

theorem depth_eq_of_ancestor? {i j : Nat} (hd : d ∈ r.classes)
    (hself : ¬TransGen r.Embeds a.name a.name) (hi : r.ancestor? i d = some a)
    (hj : r.ancestor? j d = some a) : i = j := by
  have hle {i j : Nat} (hi : r.ancestor? i d = some a) (hj : r.ancestor? j d = some a) : j ≤ i := by
    by_contra hlt
    obtain ⟨k, rfl⟩ : ∃ k, j = i + (k + 1) := ⟨j - i - 1, by omega⟩
    rw [ancestor?_add, hi] at hj
    exact hself (transGen_of_ancestor? (mem_classes_of_ancestor? hd hi) hj)
  exact Nat.le_antisymm (hle hj hi) (hle hi hj)

end Registry

namespace Object

variable {o o' : Object}

theorem ownAt?_of_updateAtDepth? {n : String} {v : Value} {m : Nat}
    (h : o.updateAtDepth? (·.setOwn? n v) m = some o') (depth : Nat) (field : String) :
    o'.ownAt? depth field = if m = depth ∧ n = field then some v else o.ownAt? depth field := by
  induction m generalizing o o' depth with
  | zero =>
      cases depth with
      | zero =>
          have hown := own?_of_setOwn? h field
          simpa [ownAt?, atDepth?, eq_comm (a := field)] using hown
      | succ depth => simp [ownAt?, atDepth?, parent_of_setOwn? h]
  | succ m ih =>
      obtain ⟨q, hq, h⟩ := Option.bind_eq_some_iff.1 h
      obtain ⟨q', hq', rfl⟩ := Option.map_eq_some_iff.1 h
      cases depth with
      | zero => simp [ownAt?, atDepth?, own?, withParent, fields]
      | succ depth =>
          rw [ownAt?_succ hq, ownAt?_succ (q := q') rfl, ih hq']
          simp

end Object

def Scalar.StartsAs (t : Primitive) (s : Scalar) : Option String → Prop
  | none => s = .zero t
  | some text => ∃ l, Literal.readAs? t text = some l ∧ Scalar.ofLiteral? t l = some s

namespace Codec

inductive StartsWith (c : Codec) (given : Option String) : FieldType → Value → Prop
  | scalar {typeName : String} {default : Option String} {counts : Option Nat} {t : Primitive}
      {s : Scalar} (type : Primitive.ofName? typeName = some t)
      (value : s.StartsAs t (given.or default)) :
      StartsWith c given (.primitive typeName default counts) (.scalar s)
  | object {target : String} {q : Object} (new : c.instantiate target = .ok q) :
      StartsWith c given (.classRef target) (.object q)
  | fixedList {typeName : String} {length : Nat} {text : Bool} {t : Primitive}
      (type : Primitive.ofName? typeName = some t) :
      StartsWith c given (.fixedList (.primitive typeName) length text)
        (.list (List.replicate length (.scalar (.zero t))))
  | variableList {element : ElementType} {count : String} {text : Bool} :
      StartsWith c given (.variableList element count text) (.list [])

/-- The fields of the part `depth` steps up, which is of the class `a`, after the initial values
`xs`. -/
def Starts (c : Codec) (r : Registry) (xs : List (ClassDef × InitialValue)) (depth : Nat)
    (a : ClassDef) (o : Object) : Prop :=
  ∀ f ∈ a.fields, ∃ v given, o.ownAt? depth f.name = some v ∧ r.LastGiven xs a f.name given ∧
    c.StartsWith given f.type v

variable {c : Codec} {r : Registry} {d a : ClassDef} {o o' : Object}
  {xs : List (ClassDef × InitialValue)} {depth : Nat}

theorem ownAt?_of_assign {className : String} {x : Assignment} (h : assign className o x = .ok o') :
    ∃ s, Scalar.ofLiteral? x.type x.value = some s ∧ ∀ depth field, o'.ownAt? depth field =
      if x.depth = depth ∧ x.field = field then some (.scalar s) else o.ownAt? depth field := by
  obtain ⟨v, hv, h⟩ := bind_eq_ok.1 h
  obtain ⟨s, hs, rfl⟩ := literal_eq_ok.1 hv
  cases hset : o.updateAtDepth? (·.setOwn? x.field (.scalar s)) x.depth with
  | none =>
      rw [hset] at h
      cases h
  | some o'' =>
      rw [hset] at h
      cases h
      exact ⟨s, hs, Object.ownAt?_of_updateAtDepth? hset⟩

theorem exists_type_of_primitive? {f : Field} {t : Primitive} (h : f.primitive? = some t) :
    ∃ typeName default counts, f.type = .primitive typeName default counts ∧
      Primitive.ofName? typeName = some t := by
  obtain ⟨typeName, htype, ht⟩ := Option.bind_eq_some_iff.1 h
  rw [Field.typeName?] at htype
  cases hf : f.type with
  | primitive typeName' default counts =>
      rw [hf] at htype
      cases htype
      exact ⟨typeName, default, counts, rfl, ht⟩
  | _ =>
      rw [hf] at htype
      cases htype

theorem Starts.assign (hd : d ∈ r.classes) (ha : r.ancestor? depth d = some a)
    (hself : ¬TransGen r.Embeds a.name a.name) (hnames : (a.fields.map Field.name).Nodup)
    {i : InitialValue} {x : Assignment} (hx : Plan.assignment r d i = .ok x)
    (h : c.Starts r xs depth a o) (ho' : Codec.assign d.name o x = .ok o') :
    c.Starts r (xs ++ [(d, i)]) depth a o' := by
  obtain ⟨found, t, l, hfound, ht, hl, rfl⟩ := Plan.assignment_eq_ok.1 hx
  obtain ⟨hline, hfield, -⟩ := Registry.resolve?_eq_some.1 hfound
  have howner := Registry.ancestor?_of_lineage hline
  obtain ⟨s, hs, hat⟩ := ownAt?_of_assign ho'
  intro f hf
  obtain ⟨v, given, hv, hlast, hstarts⟩ := h f hf
  by_cases hhit : found.depth = depth ∧ i.field = f.name
  · obtain ⟨hdepth, hname⟩ := hhit
    rw [hdepth, ha] at howner
    have hsame : found.owner = a := (Option.some.inj howner).symm
    obtain rfl : found.field = f := by
      rw [hsame, hname, ClassDef.field?_of_nodup hnames hf] at hfield
      exact (Option.some.inj hfield).symm
    obtain ⟨typeName, default, counts, htype, hofName⟩ := exists_type_of_primitive? ht
    refine ⟨.scalar s, some i.value, by rw [hat, if_pos ⟨hdepth, hname⟩], ?_, ?_⟩
    · exact Registry.lastGiven_append ⟨hname, hname ▸ (Registry.finds_iff hfound).2 hsame⟩
    · rw [htype]
      exact .scalar hofName ⟨l, hl, hs⟩
  · refine ⟨v, given, by rw [hat, if_neg hhit, hv], hlast.skip ?_, hstarts⟩
    rintro ⟨hname, hfinds⟩
    have hname : i.field = f.name := hname
    have hsame := (Registry.finds_iff hfound).1 (hname ▸ hfinds)
    rw [hsame] at howner
    exact hhit ⟨Registry.depth_eq_of_ancestor? hd hself howner ha, hname⟩

theorem Starts.assignments (hd : d ∈ r.classes) (ha : r.ancestor? depth d = some a)
    (hself : ¬TransGen r.Embeds a.name a.name) (hnames : (a.fields.map Field.name).Nodup)
    {is : List InitialValue} {as : List Assignment}
    (has : List.Forall₂ (fun i x => Plan.assignment r d i = .ok x) is as)
    (h : c.Starts r xs depth a o) (ho' : as.foldlM (Codec.assign d.name) o = .ok o') :
    c.Starts r (xs ++ is.map (d, ·)) depth a o' := by
  induction has generalizing xs o with
  | nil =>
      cases ho'
      simpa using h
  | @cons i x is as hx _ ih =>
      rw [List.foldlM_cons] at ho'
      obtain ⟨o₁, ho₁, ho'⟩ := bind_eq_ok.1 ho'
      have hrest := ih (h.assign hd ha hself hnames hx ho₁) ho'
      simpa using hrest

theorem startsAs_initial {f : FieldPlan} {t : Primitive} {default : Option String}
    {className n : String} {v : Value} (hlist : f.layout.isList = false)
    (ht : f.layout.scalarType? = some t) (hdefault : f.default = default.bind (Literal.readAs? t))
    (hvalid : ∀ text, default = some text → (Literal.readAs? t text).isSome)
    (h : initial c.instantiate className n f.init = .ok v) :
    ∃ s, v = .scalar s ∧ s.StartsAs t default := by
  cases default with
  | none =>
      rcases init_of_scalarType? hlist ht with ⟨-, hinit⟩ | ⟨l, hl, -⟩
      · rw [hinit] at h
        cases h
        exact ⟨_, rfl, rfl⟩
      · rw [hdefault] at hl
        cases hl
  | some text =>
      obtain ⟨l, hl⟩ := Option.isSome_iff_exists.1 (hvalid text rfl)
      rw [Option.bind_some, hl] at hdefault
      rcases init_of_scalarType? hlist ht with ⟨hnone, -⟩ | ⟨l', hl', hinit⟩
      · rw [hdefault] at hnone
        cases hnone
      · rw [hdefault] at hl'
        cases hl'
        rw [hinit] at h
        obtain ⟨s, hs, rfl⟩ := literal_eq_ok.1 h
        exact ⟨s, rfl, l, hl, hs⟩

theorem startsWith_initial {i : Nat} {g : Field} {f : FieldPlan} {className n : String} {v : Value}
    (hl : HasLayout r d i g.type f.layout) (hdefault : f.default = g.type.default?)
    (hslots : ∀ name length text, g.type ≠ .fixedList (.ofClass name) length text)
    (h : initial c.instantiate className n f.init = .ok v) : c.StartsWith none g.type v := by
  generalize g.type = type at hl hdefault hslots
  generalize hlayout : f.layout = l at hl
  have hinit : f.init = FieldPlan.init { f with layout := l } := by rw [← hlayout]
  cases hl with
  | scalar ht hvalid | lengthOf ht hvalid _ _ =>
      rw [FieldType.default?, ht, Option.bind_some] at hdefault
      obtain ⟨s, rfl, hs⟩ := startsAs_initial (by rw [hlayout]; rfl) (by rw [hlayout]; rfl)
        hdefault hvalid h
      exact .scalar ht hs
  | nested known =>
      rw [hinit] at h
      obtain ⟨q, hq, h⟩ := bind_eq_ok.1 h
      cases h
      exact .object hq
  | fixedScalars ht =>
      rw [hinit] at h
      cases h
      exact .fixedList ht
  | fixedNested known => exact absurd rfl (hslots _ _ _)
  | scalarList ht counted | nestedList known counted =>
      rw [hinit] at h
      cases h
      exact .variableList

theorem starts_new (hvalid : d.Valid r) {p : Plan} (hb : Built r d p) {parent : Option Object}
    {fields : List (String × Value)} (hfields : (p.fields.mapM fun f => do
      return (f.name, ← initial c.instantiate d.name f.name f.init)) = .ok fields) :
    c.Starts r [] 0 d (.mk d.name parent fields) := by
  have hvalues : List.Forall₂ (fun f e => e.1 = f.name ∧
      initial c.instantiate d.name f.name f.init = .ok e.2) p.fields fields := by
    apply (mapM_eq_ok.1 hfields).imp
    intro f e he
    obtain ⟨v, hv, he⟩ := bind_eq_ok.1 he
    cases he
    exact ⟨rfl, hv⟩
  intro g hg
  obtain ⟨i, l, hl, hplan⟩ := hb.field?_of_class (ClassDef.field?_of_nodup hvalid.names hg)
  obtain ⟨v, hv, hinitial⟩ := lookup_of_forall₂
    (R := fun f v => initial c.instantiate d.name f.name f.init = .ok v) hvalues hplan
  refine ⟨v, none, hv, by simp [Registry.LastGiven], ?_⟩
  exact startsWith_initial hl rfl (hvalid.ne_fixedList hg) hinitial

theorem exists_of_instantiate (hc : c.plans = Plan.all r) {name : String}
    (ho : c.instantiate name = .ok o) : ∃ p parent fields, c.plan name = .ok p ∧
      p.parent.mapM c.instantiate = .ok parent ∧ (p.fields.mapM fun f => do
        return (f.name, ← initial c.instantiate name f.name f.init)) = .ok fields ∧
      p.assignments.foldlM (assign name) (.mk name parent fields) = .ok o := by
  rw [instantiate_eq_assemble hc] at ho
  obtain ⟨p, hp, ho⟩ := bind_eq_ok.1 ho
  obtain ⟨parent, hparent, ho⟩ := bind_eq_ok.1 ho
  obtain ⟨fields, hfields, ho⟩ := bind_eq_ok.1 ho
  exact ⟨p, parent, fields, hp, hparent, hfields, ho⟩

theorem not_embeds_of_ancestor? (hc : c.plans = Plan.all r) (hd : d ∈ r.classes)
    (ho : c.Conforms d.name o) (ha : r.ancestor? depth d = some a) :
    ¬TransGen r.Embeds a.name a.name := by
  obtain ⟨q, -, hq⟩ := exists_atDepth hc hd ha ho
  obtain ⟨p, hp⟩ := hq.exists_plan
  exact not_transGen_embeds hc hp

theorem starts_of_instantiate (hc : c.plans = Plan.all r) (hvalid : ∀ d ∈ r.classes, d.Valid r)
    (hd : d ∈ r.classes) (ho : c.instantiate d.name = .ok o) (ha : r.ancestor? depth d = some a) :
    c.Starts r (r.initialsFrom depth d) depth a o := by
  have hself := not_embeds_of_ancestor? hc hd (conforms_of_instantiate hc ho) ha
  have hnames := (hvalid a (Registry.mem_classes_of_ancestor? hd ha)).names
  obtain ⟨p, parent, fields, hp, hparent, hfields, hassign⟩ := exists_of_instantiate hc ho
  have hb := built_of_mem hc hd hp
  induction depth generalizing d o p parent fields with
  | zero =>
      cases ha
      exact (starts_new (hvalid _ hd) hb hfields).assignments hd rfl hself hnames hb.assignments hassign
  | succ depth ih =>
      obtain ⟨b, hb', ha'⟩ := Option.bind_eq_some_iff.1 ha
      obtain ⟨name, hname, hfind⟩ := Option.bind_eq_some_iff.1 hb'
      obtain ⟨hmem, rfl⟩ := Registry.find?_eq_some.1 hfind
      rw [hb.parent, hname, Option.mapM_some] at hparent
      obtain ⟨q, hq, rfl⟩ := map_eq_ok.1 hparent
      obtain ⟨p', parent', fields', hp', hparent', hfields', hassign'⟩ := exists_of_instantiate hc hq
      have hinherited := ih hmem hq ha' p' parent' fields' hp' hparent' hfields' hassign'
        (built_of_mem hc hmem hp')
      have hnew : c.Starts r (r.initialsFrom depth b) (depth + 1) a (.mk d.name (some q) fields) := by
        intro f hf
        obtain ⟨v, given, hv, h⟩ := hinherited f hf
        exact ⟨v, given, (Object.ownAt?_succ rfl depth f.name).trans hv, h⟩
      have hset := hnew.assignments hd ha hself hnames hb.assignments hassign
      simpa [Registry.initialsFrom, hb'] using hset

def Blank (c : Codec) (o : Object) : Prop :=
  ∀ p, c.plan o.className = .ok p → ∀ f ∈ p.fields,
    (f.layout.isVariableList → o.own? f.name = some (.list [])) ∧
    ∀ t n, f.layout = .fixedScalars t n →
      o.own? f.name = some (.list (List.replicate n (.scalar (.zero t))))

/-- An object of a class in which every field, also of the parts above it, is as in a new object. -/
structure Fresh (c : Codec) (r : Registry) (d : ClassDef) (o : Object) : Prop where
  conforms : c.Conforms d.name o
  fields : ∀ depth a, r.ancestor? depth d = some a → ∀ f ∈ a.fields,
    ∃ v given, o.ownAt? depth f.name = some v ∧ c.StartsWith given f.type v

theorem fresh_of_instantiate (hc : c.plans = Plan.all r) (hvalid : ∀ d ∈ r.classes, d.Valid r)
    (hd : d ∈ r.classes) (ho : c.instantiate d.name = .ok o) : c.Fresh r d o := by
  refine ⟨conforms_of_instantiate hc ho, ?_⟩
  intro depth a ha f hf
  obtain ⟨v, given, hv, -, hstarts⟩ := starts_of_instantiate hc hvalid hd ho ha f hf
  exact ⟨v, given, hv, hstarts⟩

theorem Fresh.parent (hc : c.plans = Plan.all r) (hd : d ∈ r.classes) (h : c.Fresh r d o)
    {q : Object} (hq : o.parent = some q) : ∃ b ∈ r.classes, c.Fresh r b q := by
  obtain ⟨b, hname, hfind, hconforms⟩ := parent?_of_conforms_some hc hd h.conforms hq
  refine ⟨b, (Registry.find?_eq_some.1 hfind).1, hconforms, ?_⟩
  intro depth a ha f hf
  rw [← Object.ownAt?_succ hq]
  apply h.fields (depth + 1) a _ f hf
  simp [Registry.ancestor?, Registry.parentOf?, hname, hfind, ha]

theorem Fresh.blank (hc : c.plans = Plan.all r) (hd : d ∈ r.classes) (h : c.Fresh r d o) :
    c.Blank o := by
  intro p hp f hf
  rw [h.conforms.1] at hp
  obtain ⟨i, hi⟩ := List.mem_iff_getElem?.1 hf
  obtain ⟨g, hg, hlayout, hname, -⟩ := (built_of_mem hc hd hp).field_of_plan hi
  obtain ⟨v, given, hv, hstarts⟩ := h.fields 0 d rfl g (List.mem_of_getElem? hg)
  have hv : o.own? f.name = some v := hname ▸ hv
  generalize f.layout = l at hlayout
  generalize g.type = type at hlayout hstarts
  cases hlayout with
  | scalarList | nestedList =>
      cases hstarts
      exact ⟨fun _ => hv, by rintro _ _ ⟨⟩⟩
  | fixedScalars ht =>
      cases hstarts with
      | fixedList ht' =>
          rw [ht] at ht'
          cases ht'
          exact ⟨by rintro ⟨⟩, by rintro _ _ ⟨⟩; exact hv⟩
  | _ => exact ⟨by rintro ⟨⟩, by rintro _ _ ⟨⟩⟩

theorem Fresh.nested (hc : c.plans = Plan.all r) (hvalid : ∀ d ∈ r.classes, d.Valid r)
    (hd : d ∈ r.classes) (h : c.Fresh r d o) {e : String × Value} (he : e ∈ o.fields) {q : Object}
    (hq : q ∈ e.2.parts) : ∃ b ∈ r.classes, c.Fresh r b q := by
  obtain ⟨className, parent, fields⟩ := o
  obtain ⟨-, p, hp, -, hfields⟩ := conforms_mk.1 h.conforms
  have hb := built_of_mem hc hd hp
  obtain ⟨f, hf, hname, -⟩ := exists_left_of_mem hfields he
  obtain ⟨i, hi⟩ := List.mem_iff_getElem?.1 hf
  obtain ⟨g, hg, -, hgname, -⟩ := hb.field_of_plan hi
  obtain ⟨v, given, hv, hstarts⟩ := h.fields 0 d rfl g (List.mem_of_getElem? hg)
  have hnodup : (fields.map Prod.fst).Nodup := by
    rw [map_name_of_forall₂ hfields, hb.map_name]
    exact (hvalid d hd).names
  have hown : fields.lookup g.name = some e.2 := by
    rw [← hgname, ← hname]
    exact Object.lookup_of_mem hnodup he
  obtain rfl : v = e.2 := Option.some.inj (hv.symm.trans hown)
  generalize g.type = type at hstarts
  generalize e.2 = v at hstarts hq
  cases hstarts with
  | scalar => cases hq
  | variableList => cases hq
  | @fixedList _ length _ t =>
      obtain ⟨w, hw, hq⟩ := List.mem_filterMap.1 hq
      obtain rfl := List.eq_of_mem_replicate hw
      cases hq
  | object hnew =>
      obtain rfl := List.mem_singleton.1 hq
      obtain ⟨p', hp'⟩ := (conforms_of_instantiate hc hnew).exists_plan
      obtain ⟨b, hb, rfl, -⟩ := built_of_plan hc hp'
      exact ⟨b, hb, fresh_of_instantiate hc hvalid hb hnew⟩

theorem Fresh.every_blank (hc : c.plans = Plan.all r) (hvalid : ∀ d ∈ r.classes, d.Valid r)
    {d : ClassDef} (hd : d ∈ r.classes) {o : Object} (h : c.Fresh r d o) : o.Every c.Blank := by
  refine .intro (h.blank hc hd) ?_
  intro q hq
  obtain ⟨b, hb, hfresh⟩ : ∃ b ∈ r.classes, c.Fresh r b q := by
    rcases Object.mem_parts.1 hq with hq | ⟨e, he, hq⟩
    · exact h.parent hc hd hq
    · exact h.nested hc hvalid hd he hq
  have hlt := Object.height_lt_of_mem_parts hq
  exact hfresh.every_blank hc hvalid hb
termination_by o.height

/-- There is a new object of a class exactly if no class that it refers to, directly or not, embeds
itself, and otherwise this is the error. A new object conforms to its class, with all its lists blank,
and a field of the part of an ancestor has the last of the initial values that the ancestor and the
classes below it have for that field, or else its default value, or else zero. -/
theorem instantiate_of_check {source : String} {loaded : Loaded}
    (h : Schema.check source = .ok loaded) {e : Endian}
    (hr : r = loaded.schema.registry) (hc : c = Codec.ofRegistry r e) (hd : d ∈ r.classes) :
    ((∃ o, c.instantiate d.name = .ok o) ↔
      ∀ part, ReflTransGen r.Refers d.name part → ¬TransGen r.Embeds part part) ∧
    ((¬∃ o, c.instantiate d.name = .ok o) → ∃ part field, ReflTransGen r.Refers d.name part ∧
      TransGen r.Embeds part part ∧ c.instantiate d.name =
        .error (.plan (.unsupportedLayout part field (.embedsItself part)))) ∧
    ∀ o, c.instantiate d.name = .ok o → c.Conforms d.name o ∧ o.Every c.Blank ∧
      ∀ depth a, r.ancestor? depth d = some a → ∃ q, o.atDepth? depth = some q ∧
        q.className = a.name ∧ ∀ f ∈ a.fields, ∃ v given, q.own? f.name = some v ∧
          r.LastGiven (r.initialsFrom depth d) a f.name given ∧ c.StartsWith given f.type v := by
  have hplans : c.plans = Plan.all r := by rw [hc]; rfl
  obtain ⟨hlinked, hvalid⟩ : r.Linked ∧ ∀ d ∈ r.classes, d.Valid r := hr ▸ Schema.valid_of_check h
  have hname : r.contains d.name :=
    Registry.contains_iff.2 ⟨d, Registry.find?_eq_some.2 ⟨hd, rfl⟩⟩
  have hcases := instantiate_cases hplans hlinked hvalid hname
  refine ⟨⟨?_, ?_⟩, ?_, ?_⟩
  · rintro ⟨o, ho⟩ part hpart
    exact not_embeds_of_refers hplans (conforms_of_instantiate hplans ho) hpart
  · intro hparts
    rcases hcases with hok | ⟨part, _, hpart, hself, -⟩
    · exact hok
    · exact absurd hself (hparts part hpart)
  · intro hnone
    rcases hcases with hok | herror
    · exact absurd hok hnone
    · exact herror
  · intro o ho
    have hconforms := conforms_of_instantiate hplans ho
    refine ⟨hconforms, (fresh_of_instantiate hplans hvalid hd ho).every_blank hplans hvalid hd, ?_⟩
    intro depth a ha
    obtain ⟨q, hq, hclass, -⟩ := exists_atDepth hplans hd ha hconforms
    refine ⟨q, hq, hclass, ?_⟩
    intro f hf
    obtain ⟨v, given, hv, hgiven⟩ := starts_of_instantiate hplans hvalid hd ho ha f hf
    rw [Object.ownAt?, hq] at hv
    exact ⟨v, given, hv, hgiven⟩

end Codec

def Schema.sampleInitial : String :=
  "<s><class name='A'><initialValue name='n' value='2'/><attribute name='n'>" ++
  "<primitive type='byte' defaultValue='1'/></attribute></class>" ++
  "<class name='B' inheritsFrom='A'><initialValue name='n' value='5'/></class></s>"

namespace Registry

def sampleSet : ClassDef where
  name := "A"
  fields := [⟨"n", none, .primitive "byte" (some "1") none⟩]
  initial := [⟨"n", "2"⟩]

def sampleReset : ClassDef where
  name := "B"
  parent := "A"
  initial := [⟨"n", "5"⟩]

def sampleInitial : Registry :=
  ⟨[sampleSet, sampleReset], by decide⟩

end Registry

theorem Schema.classes_of_check_sampleInitial :
    (Schema.check Schema.sampleInitial).toOption.map (·.schema.registry.classes) =
      some Registry.sampleInitial.classes := by
  have hchars : Schema.sampleInitial = String.ofList _ :=
    Text.append_eq_ofList (Text.append_eq_ofList rfl rfl) rfl
  have hcheck (source : String) (h : source = Schema.sampleInitial) :
      (Schema.check source).toOption.map (·.schema.registry.classes) =
        some Registry.sampleInitial.classes := by
    unfold Schema.check Schema.read Markup.walk Markup.parse?
    rw [h, hchars, String.toList_ofList]
    decide +kernel
  exact hcheck _ rfl

namespace Registry

theorem embeds_sampleInitial {name target : String} (h : sampleInitial.Embeds name target) :
    name = "B" ∧ target = "A" := by
  obtain ⟨d, hd, h⟩ := h
  obtain ⟨hmem, rfl⟩ := find?_eq_some.1 hd
  simp only [sampleInitial, List.mem_cons, List.not_mem_nil, or_false] at hmem
  rcases hmem with rfl | rfl
  · have hroot : sampleSet.parent? = none := by decide
    rcases h with h | ⟨f, hf, h⟩
    · rw [hroot] at h
      cases h
    · cases List.mem_singleton.1 hf
      rcases h with h | ⟨_, _, h⟩ <;> cases h
  · rcases h with h | ⟨f, hf, -⟩
    · exact ⟨rfl, (Option.some.inj h).symm⟩
    · cases hf

theorem not_embeds_sampleInitial (name : String) :
    ¬TransGen sampleInitial.Embeds name name := by
  intro h
  obtain ⟨_, hstart, -⟩ := TransGen.head'_iff.1 h
  obtain ⟨_, -, hend⟩ := TransGen.tail'_iff.1 h
  have hfirst := (embeds_sampleInitial hstart).1
  rw [(embeds_sampleInitial hend).2] at hfirst
  exact absurd hfirst (by decide)

theorem lastGiven_sampleInitial {given : Option String}
    (h : sampleInitial.LastGiven (sampleInitial.initialsFrom 1 sampleReset) sampleSet "n" given) :
    given = some "5" := by
  have hset : sampleInitial.Sets sampleSet "n" (sampleReset, ⟨"n", "5"⟩) := by
    refine ⟨rfl, 1, by decide, by decide, ?_⟩
    intro i hi b hb
    obtain rfl : i = 0 := by omega
    cases hb
    decide
  have hall : sampleInitial.initialsFrom 1 sampleReset =
      [(sampleSet, ⟨"n", "2"⟩), (sampleReset, ⟨"n", "5"⟩)] := by decide
  rw [hall] at h
  cases given with
  | none => exact absurd hset (h _ (by simp))
  | some text =>
      obtain ⟨before, x, after, hxs, -, rfl, hafter⟩ := h
      rcases before with _ | ⟨y, _ | ⟨z, before⟩⟩
      · cases hxs
        exact absurd hset (hafter _ List.mem_cons_self)
      · cases hxs
        rfl
      · simp at hxs

end Registry

namespace Codec

theorem instantiate_of_check_sample : ∃ o q,
    (ofRegistry Registry.sampleInitial .big).instantiate "B" = .ok o ∧ o.atDepth? 1 = some q ∧
      q.className = "A" ∧ q.own? "n" = some (.scalar ⟨.byte, 5⟩) := by
  obtain ⟨loaded, hloaded, hr⟩ :=
    Schema.exists_of_classes Schema.classes_of_check_sampleInitial
  have hall := instantiate_of_check (e := .big) hloaded hr.symm rfl
    (show Registry.sampleReset ∈ _ from List.mem_cons_of_mem _ List.mem_cons_self)
  obtain ⟨o, ho⟩ := hall.1.2 fun part _ => Registry.not_embeds_sampleInitial part
  obtain ⟨-, -, hparts⟩ := hall.2.2 o ho
  obtain ⟨q, hq, hclass, hfields⟩ := hparts 1 Registry.sampleSet (by decide)
  obtain ⟨v, given, hv, hgiven, hstarts⟩ := hfields _ List.mem_cons_self
  refine ⟨o, q, ho, hq, hclass, hv.trans ?_⟩
  cases Registry.lastGiven_sampleInitial hgiven
  cases hstarts with
  | @scalar _ _ _ t s ht hs =>
      obtain rfl : Primitive.byte = t := Option.some.inj ht
      obtain ⟨l, hl, hs⟩ := hs
      have hfive : Literal.readAs? .byte "5" = some (.int 5) := by decide +kernel
      rw [hfive] at hl
      cases hl
      exact congrArg (some ∘ Value.scalar) (Option.some.inj hs).symm

end Codec

end WireSchema
