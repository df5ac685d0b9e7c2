import WireSchema.Proofs.Wire.Equality
import WireSchema.Proofs.Wire.Measure

namespace WireSchema

open Outcome

namespace Object

/-- What encoding makes sure of: there is an inherited part, a field for an object holds one of the
declared class, and a list of objects holds objects. -/
structure Accepted (o : Object) (p : Plan) : Prop where
  parent : ∀ target, p.parent = some target → ∃ q, o.parent = some q
  nested : ∀ f ∈ p.fields, ∀ target, f.layout.className? = some target → f.layout.isList = false →
    ∃ q, o.own? f.name = some (.object q) ∧ q.className = target
  items : ∀ f ∈ p.fields, ∀ target, f.layout.className? = some target → f.layout.isList →
    ∃ vs, o.own? f.name = some (.list vs) ∧ ∀ v ∈ vs, ∃ q, v = .object q

/-- What encoding takes for granted: the inherited part and the elements of lists are of the declared
classes. -/
structure Declared (o : Object) (p : Plan) : Prop where
  parent : ∀ target q, p.parent = some target → o.parent = some q → q.className = target
  items : ∀ f ∈ p.fields, ∀ target, f.layout.className? = some target → f.layout.isList →
    ∀ vs q, o.own? f.name = some (.list vs) → .object q ∈ vs → q.className = target

end Object

theorem Layout.scalarType?_of_className? {l : Layout} {target : String}
    (h : l.className? = some target) : l.scalarType? = none := by
  cases l <;> first | rfl | cases h

namespace Codec

variable {c : Codec} {o q : Object} {p : Plan} {f : FieldPlan} {bs part : Bytes}

theorem encodeField_nested {target : String} (hl : f.layout.className? = some target)
    (hlist : f.layout.isList = false) : c.encodeField o f = c.encodePart o f target := by
  rw [encodeField]
  cases hlayout : f.layout with
  | nested =>
      rw [hlayout] at hl
      cases hl
      rfl
  | fixedNested | nestedList =>
      rw [hlayout] at hlist
      cases hlist
  | _ =>
      rw [hlayout] at hl
      cases hl

theorem exists_encode_of_step {step : WireStep} (h : c.encodeStep o step = .ok part)
    (hq : q ∈ step.parts o) : ∃ bs, c.encode q = .ok bs := by
  cases step with
  | parent target =>
      obtain ⟨q', hq', h⟩ := bind_eq_ok.1 h
      have hq : o.parent = some q := Option.mem_toList.1 hq
      rw [Object.needParent_eq_ok, hq] at hq'
      cases hq'
      exact ⟨part, h⟩
  | field f =>
      rw [encodeStep] at h
      obtain ⟨target, hl, ⟨hlist, hq⟩ | ⟨hlist, vs, hvs, hq⟩⟩ := WireStep.mem_parts_field.1 hq
      · rw [encodeField_nested hl hlist] at h
        obtain ⟨q', hq', -, h⟩ := encodePart_eq_ok.1 h
        rw [hq] at hq'
        cases hq'
        exact ⟨part, h⟩
      · obtain ⟨vs', items, hvs', -, hitems, -⟩ := (encodeField_of_isList hlist).1 h
        rw [hvs] at hvs'
        cases hvs'
        obtain ⟨item, -, _, -, hitem⟩ := exists_right_of_mem hitems hq
        exact ⟨item, hitem⟩

theorem exists_encode_of_visits (h : c.encode o = .ok bs) (hq : c.Visits o q) :
    ∃ bs, c.encode q = .ok bs := by
  induction hq with
  | refl => exact ⟨bs, h⟩
  | tail _ hpart ih =>
      obtain ⟨bs, h⟩ := ih
      obtain ⟨p, hp, step, hstep, hq⟩ := hpart
      obtain ⟨p', parts, hp', hparts, -⟩ := c.encode_eq_ok.1 h
      rw [hp] at hp'
      cases hp'
      obtain ⟨part, -, hpart⟩ := exists_right_of_mem hparts hstep
      exact exists_encode_of_step hpart hq

theorem accepted_of_encode (h : c.encode o = .ok bs) :
    ∃ p, c.plan o.className = .ok p ∧ o.Accepted p := by
  obtain ⟨p, parts, hp, hparts, -⟩ := c.encode_eq_ok.1 h
  refine ⟨p, hp, ?_, ?_, ?_⟩
  · intro target htarget
    obtain ⟨part, -, hpart⟩ := exists_right_of_mem hparts (mem_wireSteps_parent.2 htarget)
    obtain ⟨q, hq, -⟩ := bind_eq_ok.1 hpart
    exact ⟨q, Object.needParent_eq_ok.1 hq⟩
  · intro f hf target hl hlist
    obtain ⟨part, -, hpart⟩ := exists_right_of_mem hparts (mem_wireSteps_field.2 hf)
    rw [encodeStep, encodeField_nested hl hlist] at hpart
    obtain ⟨q, hq, hname, -⟩ := encodePart_eq_ok.1 hpart
    exact ⟨q, hq, hname⟩
  · intro f hf target hl hlist
    obtain ⟨part, -, hpart⟩ := exists_right_of_mem hparts (mem_wireSteps_field.2 hf)
    obtain ⟨vs, items, hvs, -, hitems, -⟩ := (encodeField_of_isList hlist).1 hpart
    refine ⟨vs, hvs, ?_⟩
    intro v hv
    obtain ⟨item, -, hitem⟩ := exists_right_of_mem hitems hv
    obtain ⟨q, rfl, -⟩ := (elementOnWire_of_className? hl (Layout.scalarType?_of_className? hl)).1 hitem
    exact ⟨q, rfl⟩

def Encodes (c : Codec) (name : String) (q : Object) (bs : Bytes) : Prop :=
  c.Conforms name q ∧ c.encode q = .ok bs

def PartsReplaceable (c : Codec) (o : Object) : Prop :=
  ∀ q, c.Part o q → ∀ bs, c.encode q = .ok bs → ∃ q', c.Encodes q.className q' bs

/-- A value of the declared shape in place of the value of a field: the field of an object that has
it is encoded alike, if the list whose length is written there is as long. -/
structure StandsFor (c : Codec) (o : Object) (f : FieldPlan) (part : Bytes) (v : Value) : Prop where
  fits : c.Fits f.layout v
  length : f.layout.isList → v.list?.map List.length = o.listLength? f.name
  encodes : ∀ o' : Object, o'.own? f.name = some v →
    (∀ t list, f.layout = .lengthOf t list → o'.listLength? list = o.listLength? list) →
      c.encodeField o' f = .ok part

theorem exists_forall₂_left {α β γ : Type} {R : α → γ → Prop} {S : β → γ → Prop} {xs : List α}
    {zs : List γ} (h : List.Forall₂ R xs zs) (hS : ∀ x ∈ xs, ∀ z, R x z → ∃ y, S y z) :
    ∃ ys, List.Forall₂ S ys zs ∧ ys.length = xs.length := by
  induction h with
  | nil => exact ⟨[], .nil, rfl⟩
  | @cons x z xs zs hx _ ih =>
      obtain ⟨y, hy⟩ := hS x List.mem_cons_self z hx
      obtain ⟨ys, hys, hlength⟩ := ih fun x hx => hS x (List.mem_cons_of_mem _ hx)
      exact ⟨y :: ys, .cons hy hys, by simp [hlength]⟩

theorem exists_standsFor_list (hparts : c.PartsReplaceable o) (hp : c.plan o.className = .ok p)
    (hd : o.Declared p) (hf : f ∈ p.fields) (hlist : f.layout.isList)
    (h : c.encodeField o f = .ok part) : ∃ v, c.StandsFor o f part v := by
  obtain ⟨vs, items, hvs, hlength, hitems, rfl⟩ := (encodeField_of_isList hlist).1 h
  obtain ⟨ws, hws, hcount⟩ : ∃ ws, List.Forall₂ (c.ElementOnWire c.Encodes f.layout) ws items ∧
      ws.length = vs.length := by
    apply exists_forall₂_left hitems
    intro v hv item hitem
    cases v with
    | scalar s => exact ⟨.scalar s, hitem⟩
    | list _ => cases hitem
    | object q =>
        obtain ⟨target, hl, hq⟩ := hitem
        have hpart : c.Part o q := ⟨p, hp, .field f, mem_wireSteps_field.2 hf,
          WireStep.mem_parts_field.2 ⟨target, hl, .inr ⟨hlist, vs, hvs, hv⟩⟩⟩
        obtain ⟨q', hq'⟩ := hparts q hpart item hq
        rw [hd.items f hf target hl hlist vs q hvs hv] at hq'
        exact ⟨.object q', target, hl, hq'⟩
  refine ⟨.list ws, fits_list.2 ⟨hlist, ?_, ?_⟩, ?_, ?_⟩
  · intro n hn
    exact hcount.trans (hlength n hn)
  · intro w hw
    obtain ⟨item, -, hitem⟩ := exists_right_of_mem hws hw
    exact fitsElement_of_elementOnWire (fun _ _ _ hq => hq.1) hitem
  · intro _
    rw [Object.listLength?_of_own? hvs, ← hcount]
    rfl
  · intro o' ho' _
    refine (encodeField_of_isList hlist).2 ⟨ws, items, ho', ?_, ?_, rfl⟩
    · intro n hn
      exact hcount.trans (hlength n hn)
    · exact hws.imp fun _ _ helement => helement.imp fun _ _ _ hq => hq.2

theorem exists_standsFor (hparts : c.PartsReplaceable o) (hp : c.plan o.className = .ok p)
    (hd : o.Declared p) (hf : f ∈ p.fields) (h : c.encodeField o f = .ok part) :
    ∃ v, c.StandsFor o f part v := by
  by_cases hlist : f.layout.isList
  · exact exists_standsFor_list hparts hp hd hf hlist h
  have hfits {v : Value} (hv : c.Fits f.layout v) (henc : ∀ o' : Object,
      o'.own? f.name = some v →
      (∀ t list, f.layout = .lengthOf t list → o'.listLength? list = o.listLength? list) →
        c.encodeField o' f = .ok part) : ∃ v, c.StandsFor o f part v :=
    ⟨v, hv, fun hl => absurd hl hlist, henc⟩
  rw [encodeField] at h
  cases hlayout : f.layout with
  | fixedScalars | fixedNested | scalarList | nestedList =>
      rw [hlayout] at hlist
      exact absurd rfl hlist
  | scalar t =>
      rw [hlayout] at h
      obtain ⟨v, hv, h⟩ := bind_eq_ok.1 h
      obtain ⟨s, rfl, hs, rfl⟩ := encodeScalar_eq_ok.1 h
      refine hfits (v := .scalar s) (fits_scalar.2 (by rw [hlayout]; exact ⟨rfl, by rw [hs]; rfl⟩)) ?_
      intro o' ho' _
      rw [encodeField, hlayout]
      exact bind_eq_ok.2 ⟨_, Object.needOwn_eq_ok.2 ho', encodeScalar_eq_ok.2 ⟨s, rfl, hs, rfl⟩⟩
  | lengthOf t list =>
      rw [hlayout] at h
      obtain ⟨vs, hvs, h⟩ := bind_eq_ok.1 h
      have hlength := Object.listLength?_of_own? (Object.needList_eq_ok.1 hvs)
      refine hfits (v := .scalar (.zero t)) (fits_scalar.2 (by rw [hlayout]; exact ⟨rfl, rfl⟩)) ?_
      intro o' _ hsame
      obtain ⟨ws, hws, hcount⟩ :=
        Object.own?_of_listLength? ((hsame t list hlayout).trans hlength)
      rw [encodeField, hlayout]
      refine bind_eq_ok.2 ⟨ws, Object.needList_eq_ok.2 hws, ?_⟩
      rw [hcount]
      obtain ⟨s, hs, rfl⟩ := encodeLength_eq_ok.1 h
      exact encodeLength_eq_ok.2 ⟨s, hs, rfl⟩
  | nested target =>
      rw [hlayout] at h
      obtain ⟨q, hq, rfl, hencode⟩ := encodePart_eq_ok.1 h
      have hpart : c.Part o q := ⟨p, hp, .field f, mem_wireSteps_field.2 hf,
        WireStep.mem_parts_field.2 ⟨_, by rw [hlayout]; rfl, .inl ⟨by rw [hlayout]; rfl, hq⟩⟩⟩
      obtain ⟨q', hq', hencode'⟩ := hparts q hpart part hencode
      refine hfits (v := .object q') (fits_object.2 (by rw [hlayout]; exact ⟨rfl, _, rfl, hq'⟩)) ?_
      intro o' ho' _
      rw [encodeField, hlayout]
      exact encodePart_eq_ok.2 ⟨q', ho', hq'.1, hencode'⟩

theorem exists_fitsParent (hparts : c.PartsReplaceable o) (hp : c.plan o.className = .ok p)
    (hd : o.Declared p) (h : ∀ step ∈ p.wireSteps, ∃ part, c.encodeStep o step = .ok part) :
    ∃ part : Option Object, c.FitsParent p.parent part ∧
      ∀ target, p.parent = some target → ∀ o' : Object, o'.parent = part →
        c.encodeStep o' (.parent target) = c.encodeStep o (.parent target) := by
  cases hparent : p.parent with
  | none => exact ⟨none, trivial, by simp⟩
  | some target =>
      have hstep : .parent target ∈ p.wireSteps := mem_wireSteps_parent.2 hparent
      obtain ⟨part, hpart⟩ := h _ hstep
      obtain ⟨q, hq, hencode⟩ := bind_eq_ok.1 hpart
      have hq := Object.needParent_eq_ok.1 hq
      obtain ⟨q', hq', hencode'⟩ :=
        hparts q ⟨p, hp, _, hstep, Option.mem_toList.2 hq⟩ part hencode
      rw [hd.parent target q hparent hq] at hq'
      refine ⟨some q', hq', ?_⟩
      rintro _ ⟨⟩ o' ho'
      rw [hpart]
      exact bind_eq_ok.2 ⟨q', Object.needParent_eq_ok.2 ho', hencode'⟩

theorem encodes_of_standsFor (hs : c.Sound) (hp : c.plan o.className = .ok p)
    (h : c.encode o = .ok bs) {parent : Option Object} (hparent : c.FitsParent p.parent parent)
    (hinherited : ∀ target, p.parent = some target → ∀ o' : Object, o'.parent = parent →
      c.encodeStep o' (.parent target) = c.encodeStep o (.parent target))
    {value : FieldPlan → Value} (hvalue : ∀ f ∈ p.fields, ∃ part, c.encodeField o f = .ok part ∧
      c.StandsFor o f part (value f)) :
    c.Encodes o.className
      (.mk o.className parent (p.fields.map fun f => (f.name, value f))) bs := by
  have hnodup : ((p.fields.map fun f => (f.name, value f)).map Prod.fst).Nodup := by
    rw [List.map_map]
    exact (hs hp).names
  generalize ho' : Object.mk o.className parent (p.fields.map fun f => (f.name, value f)) = o'
  have hclass : o'.className = o.className := by rw [← ho']; rfl
  have hown (f : FieldPlan) (hf : f ∈ p.fields) : o'.own? f.name = some (value f) := by
    rw [← ho']
    exact Object.lookup_of_mem hnodup (List.mem_map_of_mem hf)
  have hsteps : ∀ step ∈ p.wireSteps, c.encodeStep o' step = c.encodeStep o step := by
    intro step hstep
    cases step with
    | parent target =>
        apply hinherited target (mem_wireSteps_parent.1 hstep)
        rw [← ho']
        rfl
    | field f =>
        have hf := mem_wireSteps_field.1 hstep
        obtain ⟨part, hpart, hstands⟩ := hvalue f hf
        rw [encodeStep, encodeStep, hpart]
        apply hstands.encodes o' (hown f hf)
        -- the list whose length is written stands for one of the same length
        intro t list hl
        obtain ⟨g, hg, rfl, count, hcount, -⟩ := (hs hp).counts hf hl
        obtain ⟨_, -, hlist⟩ := hvalue g hg
        rw [← hlist.length (isList_of_count? hcount), Object.listLength?, hown g hg]
        rfl
  constructor
  · rw [← ho']
    refine conforms_mk.2 ⟨rfl, p, hp, hparent, ?_⟩
    rw [List.forall₂_map_right_iff, List.forall₂_same]
    intro f hf
    obtain ⟨_, -, hstands⟩ := hvalue f hf
    exact ⟨rfl, hstands.fits⟩
  · rw [← h, encode_eq, encode_eq, hclass, hp, ok_bind, ok_bind, mapM_congr hsteps]

theorem exists_encodes (hs : c.Sound) {o : Object} {bs : Bytes} (h : c.encode o = .ok bs)
    (hd : ∀ q, c.Visits o q → ∀ p, c.plan q.className = .ok p → q.Declared p) :
    ∃ o', c.Encodes o.className o' bs := by
  have hparts : c.PartsReplaceable o := by
    intro q hpart bs hq
    have hlt : q.height < o.height := by
      obtain ⟨_, _, _, _, hmem⟩ := hpart
      exact WireStep.height_lt_of_mem_parts hmem
    exact exists_encodes hs hq fun q' hq' => hd q' (hq'.head hpart)
  obtain ⟨p, parts, hp, hforall, -⟩ := c.encode_eq_ok.1 h
  have hdeclared := hd o .refl p hp
  have hsteps : ∀ step ∈ p.wireSteps, ∃ part, c.encodeStep o step = .ok part := by
    intro step hstep
    obtain ⟨part, -, hpart⟩ := exists_right_of_mem hforall hstep
    exact ⟨part, hpart⟩
  obtain ⟨parent, hparent, hinherited⟩ := exists_fitsParent hparts hp hdeclared hsteps
  have hfield (f : FieldPlan) : ∃ v, f ∈ p.fields → ∃ part, c.encodeField o f = .ok part ∧
      c.StandsFor o f part v := by
    by_cases hf : f ∈ p.fields
    · obtain ⟨part, hpart⟩ := hsteps _ (mem_wireSteps_field.2 hf)
      obtain ⟨v, hv⟩ := exists_standsFor hparts hp hdeclared hf hpart
      exact ⟨v, fun _ => ⟨part, hpart, hv⟩⟩
    · exact ⟨.list [], fun h => absurd h hf⟩
  choose value hvalue using hfield
  exact ⟨_, encodes_of_standsFor hs hp h hparent hinherited hvalue⟩
termination_by o.height

end Codec

namespace Object

def sampleUncounted (items : List Value) : Object :=
  .mk "A" none [("u", .list items)]

def sampleIncomplete : Object :=
  .mk "B" (some (sampleUncounted [.object (sampleUncounted [])]))
    [("v", .list [.scalar ⟨.short, 3⟩])]

end Object

namespace Codec

section Sample

variable {e : Endian} {q : Object}

theorem declared_sampleUncounted {items : List Value}
    (h : ∀ q, .object q ∈ items → q.className = "A") :
    (Object.sampleUncounted items).Declared Plan.sampleBase := by
  constructor
  · rintro _ _ ⟨⟩
  · intro f hf target hl hlist vs q hvs hq
    rcases List.mem_pair.1 hf with rfl | rfl
    · cases hl
    · cases hl
      cases hvs
      exact h q hq

theorem declared_sampleIncomplete : Object.sampleIncomplete.Declared Plan.sampleDerived := by
  constructor
  · rintro _ _ ⟨⟩ ⟨⟩
    rfl
  · intro f hf target hl
    cases List.mem_singleton.1 hf
    cases hl

theorem mem_of_visits_sampleIncomplete
    (h : (ofRegistry Registry.sample e).Visits .sampleIncomplete q) :
    q ∈ [Object.sampleIncomplete, .sampleUncounted [.object (.sampleUncounted [])],
      .sampleUncounted []] := by
  induction h with
  | refl => exact List.mem_cons_self
  | tail _ hpart ih =>
      obtain ⟨_, -, step, -, hq⟩ := hpart
      have hq := WireStep.mem_parts_of_mem_parts hq
      rcases List.mem_cons.1 ih with rfl | ih
      · cases List.mem_singleton.1 hq
        simp
      rcases List.mem_cons.1 ih with rfl | ih
      · cases List.mem_singleton.1 hq
        simp
      · cases List.mem_singleton.1 ih
        cases hq

theorem not_conforms_sampleIncomplete :
    ¬(ofRegistry Registry.sample e).Conforms "B" .sampleIncomplete := by
  intro h
  obtain ⟨-, p, hp, hparent, -⟩ := conforms_mk.1 h
  rw [ofRegistry_sample] at hp
  cases hp
  obtain ⟨-, p, hp, -, hfields⟩ := conforms_mk.1 hparent
  rw [ofRegistry_sample] at hp
  cases hp
  cases hfields with
  | cons hfirst _ => exact absurd hfirst.1 (by decide)

end Sample

variable {c : Codec} {o : Object} {bs : Bytes}

/-- In each object that an encoding comes to, a field for an object holds one of the declared class.
The inherited part is there and lists of objects hold objects, but their classes are taken as they
are. If these are the declared ones, the encoding is that of an object of the class. -/
theorem classes_of_encode {source : String} {loaded : Loaded} (h : Schema.check source = .ok loaded)
    {e : Endian} (hc : c = Codec.ofRegistry loaded.schema.registry e) (he : c.encode o = .ok bs) :
    (∀ q, c.Visits o q → ∃ p, c.plan q.className = .ok p ∧ q.Accepted p) ∧
    ((∀ q, c.Visits o q → ∀ p, c.plan q.className = .ok p → q.Declared p) →
      ∃ o', c.Conforms o.className o' ∧ c.encode o' = .ok bs) := by
  constructor
  · intro q hq
    obtain ⟨part, hpart⟩ := exists_encode_of_visits he hq
    exact accepted_of_encode hpart
  · intro hd
    exact exists_encodes (hc ▸ sound_of_check h e) he hd

theorem classes_of_encode_sample :
    ¬(ofRegistry Registry.sample .big).Conforms "B" .sampleIncomplete ∧
    (ofRegistry Registry.sample .big).encode .sampleIncomplete = .ok [1, 0, 0, 3] ∧
    (ofRegistry Registry.sample .big).plan "A" = .ok Plan.sampleBase ∧
    (Object.sampleUncounted [.object (.sampleUncounted [])]).Accepted Plan.sampleBase ∧
    ∃ o', (ofRegistry Registry.sample .big).Conforms "B" o' ∧
      (ofRegistry Registry.sample .big).encode o' = .ok [1, 0, 0, 3] := by
  obtain ⟨loaded, hloaded, hr⟩ := Schema.check_sample
  have hbase : (ofRegistry Registry.sample .big).plan "A" = .ok Plan.sampleBase := by
    rw [ofRegistry_sample]
    rfl
  have hderived : (ofRegistry Registry.sample .big).plan "B" = .ok Plan.sampleDerived := by
    rw [ofRegistry_sample]
    rfl
  have hencode : (ofRegistry Registry.sample .big).encode .sampleIncomplete =
      .ok [1, 0, 0, 3] := by
    rw [ofRegistry_sample]
    decide +kernel
  obtain ⟨haccepted, hbytes⟩ := classes_of_encode hloaded (by rw [hr]) hencode
  refine ⟨not_conforms_sampleIncomplete, hencode, hbase, ?_, hbytes ?_⟩
  · have hpart : (ofRegistry Registry.sample .big).Part .sampleIncomplete
        (.sampleUncounted [.object (.sampleUncounted [])]) :=
      ⟨_, hderived, .parent "A", List.mem_cons_self, List.mem_cons_self⟩
    obtain ⟨p, hp, h⟩ := haccepted _ (.single hpart)
    cases hbase.symm.trans hp
    exact h
  · intro q hq p hp
    rcases List.mem_cons.1 (mem_of_visits_sampleIncomplete hq) with rfl | hq
    · cases hderived.symm.trans hp
      exact declared_sampleIncomplete
    rcases List.mem_pair.1 hq with rfl | rfl
    · cases hbase.symm.trans hp
      apply declared_sampleUncounted
      simp [Object.sampleUncounted, Object.className]
    · cases hbase.symm.trans hp
      exact declared_sampleUncounted (by simp)

end Codec

def Object.sampleOther : Object :=
  .mk "B" (some (.sampleBase 0 [])) [("v", .list [.scalar ⟨.short, 3⟩])]

namespace Codec

/-- An object of the derived class in a list of objects of the base class, and one in place of the
inherited part. The bytes of the first are decoded to another object, and two of them are left. -/
theorem encode_undeclared :
    (∃ loaded, Schema.check Schema.sample = .ok loaded ∧ loaded.schema.registry = Registry.sample) ∧
    (ofRegistry Registry.sample .big).plan "A" = .ok Plan.sampleBase ∧
    ¬(Object.sampleBase 1 [.object .sampleOther]).Declared Plan.sampleBase ∧
    (ofRegistry Registry.sample .big).encode (.sampleBase 1 [.object .sampleOther]) =
      .ok [1, 0, 0, 3] ∧
    ((ofRegistry Registry.sample .big).decodeInto (.sampleBase 0 []) [1, 0, 0, 3]).object =
      .sampleBase 1 [.object (.sampleBase 0 [])] ∧
    ((ofRegistry Registry.sample .big).decodeInto (.sampleBase 0 []) [1, 0, 0, 3]).rest =
      .ok [0, 3] ∧
    (ofRegistry Registry.sample .big).plan "B" = .ok Plan.sampleDerived ∧
    ¬(Object.mk "B" (some .sampleOther) [("v", .list [])]).Declared Plan.sampleDerived ∧
    (ofRegistry Registry.sample .big).encode (.mk "B" (some .sampleOther) [("v", .list [])]) =
      .ok [0, 0, 3] := by
  have hitem : ¬(Object.sampleBase 1 [.object .sampleOther]).Declared Plan.sampleBase := by
    intro h
    have hclass := h.items ⟨"u", none, .nestedList "A" ⟨"n", "A", 0, .byte⟩, none, false⟩
      (by decide) "A" rfl rfl _ _ rfl List.mem_cons_self
    exact absurd hclass (by decide)
  have hparent :
      ¬(Object.mk "B" (some .sampleOther) [("v", .list [])]).Declared Plan.sampleDerived := by
    intro h
    exact absurd (h.parent "A" _ rfl rfl) (by decide)
  rw [ofRegistry_sample]
  exact ⟨Schema.check_sample, rfl, hitem, by decide +kernel, by decide +kernel, by decide +kernel,
    rfl, hparent, by decide +kernel⟩

end Codec

end WireSchema
