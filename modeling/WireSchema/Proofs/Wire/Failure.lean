import WireSchema.Proofs.Wire.Inheritance
import WireSchema.Proofs.Wire.Interruption
import WireSchema.Proofs.Wire.Making

namespace WireSchema

open Outcome

open Relation (TransGen)

namespace Codec

/-- The error for a list whose count is of a signed type and was read from `bs` as a negative
number. -/
def NegativeCount (c : Codec) (bs : Bytes) (error : CodecError) : Prop :=
  ∃ o p f count s n, c.Conforms o.className o ∧ c.plan o.className = .ok p ∧ f ∈ p.fields ∧
    f.layout.count? = some count ∧ o.ownAt? count.depth count.field = some (.scalar s) ∧
    s.type = count.type ∧ count.type.isSigned ∧ s.toInt? = some n ∧ n < 0 ∧
    s.toBytes c.endian <:+: bs ∧ error = .invalidCount o.className f.name (.scalar s)

def InputError (c : Codec) (bs : Bytes) (error : CodecError) : Prop :=
  error.IsShortInput ∨ c.NegativeCount bs error

def InputOrDepthError (c : Codec) (bs : Bytes) (error : CodecError) : Prop :=
  c.InputError bs error ∨ ∃ target, error = .tooDeep target

/-- Decoding into an object of a class fails only because of the input or of the bound on the depth. -/
def FailsOnInput (c : Codec) (decode : Object → Bytes → Decoded) : Prop :=
  ∀ {name o}, c.Conforms name o → ∀ bs error, (decode o bs).rest = .error error →
    c.InputOrDepthError bs error

variable {c : Codec} {r : Registry} {o o' : Object} {p : Plan} {f : FieldPlan} {name : String}
  {bs rest : Bytes} {error : CodecError} {s : Scalar}

theorem InputError.mono (h : c.InputError rest error) (hrest : rest <:+: bs) :
    c.InputError bs error := by
  rcases h with h | ⟨o, p, f, count, s, n, ho, hp, hf, hcount, hs, ht, hsigned, hn, hneg, hread, rfl⟩
  · exact .inl h
  · exact .inr ⟨o, p, f, count, s, n, ho, hp, hf, hcount, hs, ht, hsigned, hn, hneg,
      hread.trans hrest, rfl⟩

theorem InputOrDepthError.mono (h : c.InputOrDepthError rest error) (hrest : rest <:+: bs) :
    c.InputOrDepthError bs error := by
  rcases h with h | h
  · exact .inl (h.mono hrest)
  · exact .inr h

theorem infix_of_onWire {depth k : Nat} {n : String} (h : c.OnWire depth name o bs)
    (hs : o.ownAt? k n = some (.scalar s)) : s.toBytes c.endian <:+: bs := by
  induction k generalizing depth name o bs with
  | zero =>
      cases depth with
      | zero => cases h
      | succ depth =>
          obtain ⟨p, parts, -, -, -, hnames, hsteps, rfl⟩ := h
          have hown : o.own? n = some (.scalar s) := hs
          obtain ⟨f, hf, rfl⟩ : ∃ f ∈ p.fields, f.name = n := by
            obtain ⟨pre, post, hfields, -⟩ := Object.exists_of_lookup hown
            have hmem : n ∈ o.fields.map Prod.fst := by simp [hfields]
            rw [hnames] at hmem
            exact List.mem_map.1 hmem
          obtain ⟨part, hpart, v, hv, hwire⟩ :=
            exists_right_of_mem hsteps (mem_wireSteps_field.2 hf)
          rw [hown] at hv
          cases hv
          obtain ⟨-, -, rfl⟩ := hwire
          exact List.infix_of_mem_flatten hpart
  | succ k ih =>
      cases depth with
      | zero => cases h
      | succ depth =>
          obtain ⟨p, parts, -, -, hparent, -, hsteps, rfl⟩ := h
          cases hq : o.parent with
          | none => simp [Object.ownAt?, Object.atDepth?, hq] at hs
          | some q =>
              rw [Object.ownAt?_succ hq] at hs
              rw [hq] at hparent
              obtain ⟨target, htarget⟩ := Option.isSome_iff_exists.1 hparent.symm
              obtain ⟨part, hpart, q', hq', hwire⟩ :=
                exists_right_of_mem hsteps (mem_wireSteps_parent.2 htarget)
              rw [hq] at hq'
              cases hq'
              exact (ih hwire hs).trans (List.infix_of_mem_flatten hpart)

theorem parent_of_plan (ho : c.Conforms name o) (hp : c.plan name = .ok p) (h : p.parent = none) :
    o.parent = none := by
  obtain ⟨p', hp', hparent, -⟩ := ho.2.here
  rw [ho.1, hp] at hp'
  cases hp'
  rw [h] at hparent
  exact Option.map_eq_none_iff.1 hparent

section Counts

variable {decode : Object → Bytes → Decoded}

theorem infix_of_field (hdelimited : ∀ o, Delimited fun bs => (decode o bs).outcome)
    {first second : List WireStep} {t : Primitive} {list : String} (hl : f.layout = .lengthOf t list)
    (hne : ∀ g, .field g ∈ second → g.name ≠ f.name)
    (h : c.decodeSteps decode o (first ++ .field f :: second) bs = ⟨o', .ok rest⟩)
    (hs : o'.own? f.name = some (.scalar s)) : s.toBytes c.endian <:+: bs := by
  obtain ⟨o₁, rest₁, hfirst, h⟩ := decodeSteps_append.1 h
  obtain ⟨o₂, rest₂, hstep, hsecond⟩ := decodeSteps_cons.1 h
  have hsuffix : rest₁ <:+ bs :=
    (c.delimited_decodeSteps hdelimited o first).suffix (Decoded.outcome_eq_ok.2 hfirst)
  simp only [decodeStep, decodeField, hl] at hstep
  obtain ⟨v, hread, hset⟩ := exists_of_put hstep
  obtain ⟨chunk, rfl, s', rfl, -, rfl⟩ := (parses_readScalarValue t rest₁ v rest₂).1 hread
  have hown : o₂.own? f.name = some (.scalar s') :=
    (Object.own?_of_setOwn? hset f.name).trans (if_pos rfl)
  have hkept : (c.decodeSteps decode o₂ second rest₂).object.own? f.name = o₂.own? f.name :=
    own?_decodeSteps hne rest₂
  rw [hsecond, hown, hs] at hkept
  cases hkept
  exact (List.prefix_append _ rest₂).isInfix.trans hsuffix.isInfix

theorem infix_of_parent (hc : c.plans = Plan.all r) (hs : c.Sound) (ho : c.Conforms name o)
    (hp : c.plan name = .ok p) {target n : String} (htarget : p.parent = some target)
    {fs : List FieldPlan} {depth k : Nat}
    (h : c.decodeSteps (c.decodeWithin depth) o (.parent target :: fs.map .field) bs =
      ⟨o', .ok rest⟩)
    (hvalue : o'.ownAt? (k + 1) n = some (.scalar s)) : s.toBytes c.endian <:+: bs := by
  obtain ⟨q, hq, hconforms⟩ := exists_parent_of_plan ho (ho.1 ▸ hp) htarget
  obtain ⟨o₁, rest₁, hstep, hfields⟩ := decodeSteps_cons.1 h
  simp only [decodeStep, hq, Decoded.mk.injEq] at hstep
  obtain ⟨rfl, hrest⟩ := hstep
  obtain ⟨chunk, rfl, hwire⟩ := (decodes_decodeWithin hc hs depth hconforms bs
    (c.decodeWithin depth q bs).object rest₁).1 (by rw [← hrest])
  have hparent : o'.parent = some (c.decodeWithin depth q (chunk ++ rest₁)).object := by
    have hkept : (c.decodeSteps (c.decodeWithin depth)
        (o.withParent (c.decodeWithin depth q (chunk ++ rest₁)).object) (fs.map .field)
        rest₁).object.parent = some (c.decodeWithin depth q (chunk ++ rest₁)).object :=
      parent_decodeFields
    rwa [hfields] at hkept
  rw [Object.ownAt?_succ hparent] at hvalue
  exact (infix_of_onWire hwire hvalue).trans (List.prefix_append chunk rest₁).isInfix

/-- By the time the step for a list comes, its count has been read from the input. -/
theorem infix_of_count (hc : c.plans = Plan.all r) (hs : c.Sound) (ho : c.Conforms name o)
    (hp : c.plan name = .ok p) {before after : List WireStep}
    (hsteps : p.wireSteps = before ++ .field f :: after) {count : CountSource}
    (hcount : f.layout.count? = some count) {depth : Nat}
    (h : c.decodeSteps (c.decodeWithin depth) o before bs = ⟨o', .ok rest⟩)
    (hvalue : o'.ownAt? count.depth count.field = some (.scalar s)) :
    s.toBytes c.endian <:+: bs := by
  obtain ⟨fs, gs, hfields, hbefore⟩ := exists_of_wireSteps hsteps
  cases hdepth : count.depth with
  | zero =>
      obtain ⟨g, hg, hname, t, hl⟩ := (hs hp).counted hfields hcount hdepth
      obtain ⟨first, second, rfl⟩ := List.append_of_mem
        (show WireStep.field g ∈ before by rw [hbefore]; simp [hg])
      have hne : ∀ g', .field g' ∈ second → g'.name ≠ g.name := by
        intro g' hg'
        have hsplit : p.wireSteps = (first ++ [.field g]) ++ (second ++ .field f :: after) := by
          simp [hsteps]
        exact (name_ne_of_wireSteps (hs hp) hsplit (by simp) (by simp [hg'])).symm
      rw [hdepth, ← hname] at hvalue
      exact infix_of_field (c.delimited_decodeWithin depth) hl hne h hvalue
  | succ k =>
      rw [hdepth] at hvalue
      cases htarget : p.parent with
      | none =>
          -- a class without a parent has all its counts among its own fields
          rw [htarget, Option.toList_none, List.map_nil, List.nil_append] at hbefore
          subst hbefore
          have hkept : (c.decodeSteps (c.decodeWithin depth) o (fs.map .field) bs).object.parent =
              o.parent := parent_decodeFields
          rw [h, parent_of_plan ho hp htarget] at hkept
          simp [Object.ownAt?, Object.atDepth?, hkept] at hvalue
      | some target =>
          rw [htarget] at hbefore
          subst hbefore
          exact infix_of_parent hc hs ho hp htarget h hvalue

end Counts

theorem eq_endOfInput_of_readScalarValue {t : Primitive}
    (h : c.readScalarValue t bs = .error error) : error = .endOfInput := by
  have hread : c.readScalar t bs = .error error := map_eq_error.1 h
  simp only [readScalar] at hread
  split at hread
  · cases hread
    rfl
  · cases hread

theorem inputError_of_readScalars {t : Primitive} {n : Nat}
    (h : readMany (c.readScalarValue t) [] n rest = .error error) : c.InputError bs error := by
  obtain ⟨_, _, _, -, -, h⟩ := exists_of_readMany_error h
  rw [eq_endOfInput_of_readScalarValue h]
  exact .inl trivial

theorem negativeCount_of_elementCount (hc : c.plans = Plan.all r) (ho : c.Conforms name o)
    (hp : c.plan name = .ok p) (hf : f ∈ p.fields) {count : CountSource}
    (hcount : f.layout.count? = some count)
    (hread : ∀ s, o.ownAt? count.depth count.field = some (.scalar s) → s.toBytes c.endian <:+: bs)
    (h : elementCount o f.name count = .error error) : c.NegativeCount bs error := by
  obtain ⟨hscalar, hinteger⟩ := hasScalar_of_count hc hp hf hcount ho
  obtain ⟨s, hs, ht⟩ := hscalar.exists_ownAt?
  have hvalue : (o.atDepth? count.depth).bind (·.own? count.field) = some (.scalar s) := hs
  simp only [elementCount, hvalue] at h
  cases hn : (Value.scalar s).toCount? with
  | some n =>
      rw [hn] at h
      cases h
  | none =>
      rw [hn] at h
      cases h
      rw [← ht] at hinteger
      have hnot (n : Nat) : s.toInt? ≠ some (n : Int) := by
        intro hint
        rw [Value.toCount?_scalar.2 hint] at hn
        cases hn
      -- a number of an unsigned type could be counted
      have hsigned : s.type.isSigned := by
        by_contra hunsigned
        exact hnot s.word.toNat (by simp [Scalar.toInt?, hinteger, hunsigned])
      have hint : s.toInt? = some s.word.toInt := by simp [Scalar.toInt?, hinteger, hsigned]
      have hneg : s.word.toInt < 0 := by
        by_contra hle
        refine hnot s.word.toInt.toNat ?_
        rw [hint, Int.toNat_of_nonneg (by omega)]
      exact ⟨o, p, f, count, s, _, ho.1 ▸ ho, ho.1 ▸ hp, hf, hcount, hs, ht, ht ▸ hsigned, hint, hneg,
        hread s hs, rfl⟩

section Step

variable {depth : Nat} (hc : c.plans = Plan.all r) (hs : c.Sound)
  (hmake : ∀ target, r.contains target → ∃ new, c.instantiate target = .ok new)
  (hdecode : c.FailsOnInput (c.decodeWithin depth))

include hc hdecode

theorem inputOrDepthError_of_readObjects {target : String} (hnew : ∃ new, c.instantiate target = .ok new)
    {n : Nat} (hrest : rest <:+: bs)
    (h : readMany (c.readObject (c.decodeWithin depth) target) [] n rest = .error error) :
    c.InputOrDepthError bs error := by
  obtain ⟨i, v, rest₁, -, hread, h⟩ := exists_of_readMany_error h
  have hdelimited := c.delimited_readObject (c.delimited_decodeWithin depth) target
  have hsuffix : rest₁ <:+ rest := (delimited_readMany hdelimited [] i).suffix hread
  obtain ⟨new, hnew⟩ := hnew
  have hfails : (c.decodeWithin depth new rest₁).rest = .error error := by
    rw [readObject, hnew, ok_bind] at h
    rcases bind_eq_error.1 h with h | ⟨_, -, h⟩
    · exact h
    · cases h
  have hcause := hdecode (conforms_of_instantiate hc hnew) rest₁ error hfails
  exact hcause.mono (hsuffix.isInfix.trans hrest)

include hmake

theorem inputOrDepthError_of_readField (ho : c.Conforms name o) (hp : c.plan name = .ok p)
    (hf : f ∈ p.fields) (hl : ∀ target, f.layout ≠ .nested target) (hrest : rest <:+: bs)
    (hread : ∀ count s, f.layout.count? = some count →
      o.ownAt? count.depth count.field = some (.scalar s) → s.toBytes c.endian <:+: bs)
    (h : c.readField (c.decodeWithin depth) o f rest = .error error) :
    c.InputOrDepthError bs error := by
  have hnew {target : String} (htarget : f.layout.className? = some target) :
      ∃ new, c.instantiate target = .ok new := by
    obtain ⟨d, -, -, hb⟩ := built_of_plan hc hp
    exact hmake target (hb.contains_of_layout hf htarget)
  have hcounted {count : CountSource} (hcount : f.layout.count? = some count)
      (h : elementCount o f.name count = .error error) : c.InputError bs error :=
    .inr (negativeCount_of_elementCount hc ho hp hf hcount (hread count · hcount) h)
  rw [readField] at h
  cases hlayout : f.layout with
  | nested target => exact absurd hlayout (hl target)
  | scalar t | lengthOf t _ =>
      rw [hlayout] at h
      rw [eq_endOfInput_of_readScalarValue h]
      exact .inl (.inl trivial)
  | fixedScalars t length =>
      rw [hlayout] at h
      exact .inl (inputError_of_readScalars h)
  | fixedNested target length =>
      rw [hlayout] at h
      exact inputOrDepthError_of_readObjects hc hdecode (hnew (by rw [hlayout]; rfl)) hrest h
  | scalarList t count =>
      rw [hlayout] at h
      rcases bind_eq_error.1 h with h | ⟨n, -, h⟩
      · exact .inl (hcounted (by rw [hlayout]; rfl) h)
      · rw [readScalars] at h
        split at h
        · cases h
          exact .inl (.inl trivial)
        · exact .inl (inputError_of_readScalars h)
  | nestedList target count =>
      rw [hlayout] at h
      rcases bind_eq_error.1 h with h | ⟨n, -, h⟩
      · exact .inl (hcounted (by rw [hlayout]; rfl) h)
      · exact inputOrDepthError_of_readObjects hc hdecode (hnew (by rw [hlayout]; rfl)) hrest h

include hs

theorem inputOrDepthError_of_decodeStep (ho : c.Conforms name o) (hp : c.plan name = .ok p)
    {step : WireStep} (hstep : step ∈ p.wireSteps) (hrest : rest <:+: bs)
    (hread : ∀ f count s, step = .field f → f.layout.count? = some count →
      o.ownAt? count.depth count.field = some (.scalar s) → s.toBytes c.endian <:+: bs)
    (h : (c.decodeStep (c.decodeWithin depth) o step rest).rest = .error error) :
    c.InputOrDepthError bs error := by
  have hpart {target : String} {q : Object} (hq : c.Conforms target q)
      (h : (c.decodeWithin depth q rest).rest = .error error) :
      c.InputOrDepthError bs error :=
    (hdecode hq rest error h).mono hrest
  cases step with
  | parent target =>
      obtain ⟨q, hq, hconforms⟩ :=
        exists_parent_of_plan ho (ho.1 ▸ hp) (mem_wireSteps_parent.1 hstep)
      simp only [decodeStep, hq] at h
      exact hpart hconforms h
  | field f =>
      have hf := mem_wireSteps_field.1 hstep
      by_cases hl : ∃ target, f.layout = .nested target
      · obtain ⟨target, hl⟩ := hl
        obtain ⟨q, hown, hq⟩ := exists_own?_nested (hs hp) ho hp hf hl
        rw [decodeStep, decodeField_of_nested hl hown] at h
        exact hpart hq h
      · have hl : ∀ target, f.layout ≠ .nested target := fun target heq => hl ⟨target, heq⟩
        rw [decodeStep, decodeField_of_ne hl] at h
        refine inputOrDepthError_of_readField hc hmake hdecode ho hp hf hl hrest
          (fun count s => hread f count s rfl) (error_of_put (fun v rest' hv => ?_) h)
        -- the object has a place for what is read
        have hfits := fits_of_readField hc (preserves_decodeWithin hc hs depth) hl hv
        obtain ⟨o', hset, -⟩ := conforms_setOwn ho hp (Plan.field?_of_mem (hs hp) hf) hfits
        exact ⟨o', hset⟩

end Step

theorem failsOnInput_decodeWithin (hc : c.plans = Plan.all r) (hs : c.Sound)
    (hmake : ∀ target, r.contains target → ∃ new, c.instantiate target = .ok new) (depth : Nat) :
    c.FailsOnInput (c.decodeWithin depth) := by
  induction depth with
  | zero =>
      intro name o _ bs error h
      cases h
      exact .inr ⟨o.className, rfl⟩
  | succ depth ih =>
      intro name o ho bs error h
      obtain ⟨p, hp⟩ := ho.exists_plan
      simp only [decodeWithin, ho.1, hp] at h
      have hfails : c.decodeSteps (c.decodeWithin depth) o p.wireSteps bs =
          ⟨(c.decodeSteps (c.decodeWithin depth) o p.wireSteps bs).object, .error error⟩ := by
        rw [← h]
      obtain ⟨before, step, after, o₁, rest₁, hsplit, hbefore, hstep⟩ :=
        exists_of_decodeSteps_error hfails
      have hmem : ∀ step' ∈ before, step' ∈ p.wireSteps := by
        intro step' hstep'
        simp [hsplit, hstep']
      have ho₁ : c.Conforms name o₁ := by
        have hkept := conforms_decodeSteps hc hs (preserves_decodeWithin hc hs depth) ho hp hmem bs
        rwa [hbefore] at hkept
      have hsuffix : rest₁ <:+ bs := (c.delimited_decodeSteps (c.delimited_decodeWithin depth) o
        before).suffix (Decoded.outcome_eq_ok.2 hbefore)
      refine inputOrDepthError_of_decodeStep hc hs hmake ih ho₁ hp (by simp [hsplit]) hsuffix.isInfix ?_
        (congrArg Decoded.rest hstep)
      rintro f count s rfl hcount hvalue
      exact infix_of_count hc hs ho hp hsplit hcount hbefore hvalue

theorem exists_instantiate_of_contains (hc : c.plans = Plan.all r) (hlinked : r.Linked)
    (hvalid : ∀ d ∈ r.classes, d.Valid r)
    (hself : ∀ d ∈ r.classes, ¬TransGen r.Embeds d.name d.name) (hname : r.contains name) :
    ∃ new, c.instantiate name = .ok new := by
  rcases instantiate_cases hc hlinked hvalid hname with h | ⟨part, _, -, hpart, -⟩
  · exact h
  · obtain ⟨_, ⟨d, hd, -⟩, -⟩ := TransGen.head'_iff.1 hpart
    obtain ⟨hmem, rfl⟩ := Registry.find?_eq_some.1 hd
    exact absurd hpart (hself d hmem)

/-- Where no class embeds itself, an object of each class can be made, and decoding into it gives an
object of the class or fails because of the input. Whenever the plan of the class refers to a field
so many steps up, for a count or an initial value, an object of the class has there a part of the
right class and in it a scalar of the right type, and decoding that fails leaves such an object
too. -/
theorem decode_of_check {source : String} {loaded : Loaded}
    (h : Schema.check source = .ok loaded) (hr : r = loaded.schema.registry) {e : Endian}
    (hc : c = ofRegistry r e) (hself : ∀ d ∈ r.classes, ¬TransGen r.Embeds d.name d.name)
    (hname : r.contains name) (bs : Bytes) :
    ((∃ o, c.decode name bs = .ok o ∧ c.Conforms name o) ∨
      ∃ error, c.decode name bs = .error error ∧ c.InputError bs error) ∧
    (∃ new, c.instantiate name = .ok new ∧ c.Conforms name (c.decodeInto new bs).object) ∧
    ∀ o, c.Conforms name o → ∃ p, c.plan name = .ok p ∧
      (∀ f ∈ p.fields, ∀ count, f.layout.count? = some count →
        o.HasScalar count.depth count.owner count.field count.type) ∧
      ∀ x ∈ p.assignments, o.HasScalar x.depth x.owner x.field x.type := by
  have hplans : c.plans = Plan.all r := by rw [hc]; rfl
  have hs : c.Sound := by
    rw [hc, hr]
    exact sound_of_check h e
  obtain ⟨hlinked, hvalid⟩ := Schema.valid_of_check h
  rw [← hr] at hlinked hvalid
  have hmake (target : String) (htarget : r.contains target) :
      ∃ new, c.instantiate target = .ok new :=
    exists_instantiate_of_contains hplans hlinked hvalid hself htarget
  obtain ⟨new, hnew⟩ := hmake name hname
  have hconforms := conforms_of_instantiate hplans hnew
  have hkept := preserves_decodeInto hplans hs hconforms bs
  refine ⟨?_, ⟨new, hnew, hkept⟩, fun o ho => ?_⟩
  · cases hrest : (c.decodeInto new bs).rest with
    | ok rest =>
        exact .inl ⟨_, by simp only [decode, hnew, ok_bind, hrest]; rfl, hkept⟩
    | error error =>
        refine .inr ⟨error, by simp only [decode, hnew, ok_bind, hrest]; rfl, ?_⟩
        rcases failsOnInput_decodeWithin hplans hs hmake _ hconforms bs error hrest with
          herror | ⟨target, rfl⟩
        · exact herror
        · exact absurd hrest (rest_decodeInto_ne_tooDeep hplans new bs target)
  · obtain ⟨p, hp⟩ := ho.exists_plan
    refine ⟨p, hp, fun f hf count hcount => ?_, fun x hx => ?_⟩
    · exact (hasScalar_of_count hplans hp hf hcount ho).1
    · exact hasScalar_of_assignment hplans hp hx ho

theorem decode_of_check_sample : ∃ c, c = ofRegistry Registry.sample .big ∧
    c.decode "B" [1, 255] = .error (.invalidCount "A" "u" (.scalar ⟨.byte, 255⟩)) ∧
    c.NegativeCount [1, 255] (.invalidCount "A" "u" (.scalar ⟨.byte, 255⟩)) ∧
    (Object.sampleDerived 5 7).HasScalar 1 "A" "n" .byte := by
  obtain ⟨loaded, hloaded, hr⟩ := Schema.check_sample
  have hfails : (ofRegistry Registry.sample .big).decode "B" [1, 255] =
      .error (.invalidCount "A" "u" (.scalar ⟨.byte, 255⟩)) := by
    rw [ofRegistry_sample]
    decide +kernel
  have hplans : (ofRegistry Registry.sample .big).plan "A" = .ok Plan.sampleBase ∧
      (ofRegistry Registry.sample .big).plan "B" = .ok Plan.sampleDerived := by
    rw [ofRegistry_sample]
    exact ⟨rfl, rfl⟩
  have hself : ∀ d ∈ Registry.sample.classes, ¬TransGen Registry.sample.Embeds d.name d.name :=
    List.forall_mem_cons.2 ⟨not_transGen_embeds rfl hplans.1,
      List.forall_mem_singleton.2 (not_transGen_embeds rfl hplans.2)⟩
  have hname : Registry.sample.contains "B" := by decide
  obtain ⟨hcause, -, hparts⟩ := decode_of_check (e := .big) hloaded hr.symm rfl hself hname [1, 255]
  refine ⟨_, rfl, hfails, ?_, ?_⟩
  · rw [hfails] at hcause
    rcases hcause with ⟨_, h, -⟩ | ⟨_, h, hshort | hnegative⟩
    · cases h
    · cases h
      cases hshort
    · cases h
      exact hnegative
  · obtain ⟨p, hp, hcounts, -⟩ := hparts (.sampleDerived 5 7) conforms_sampleDerived
    rw [hplans.2] at hp
    cases hp
    exact hcounts _ List.mem_cons_self _ rfl

end Codec

end WireSchema
