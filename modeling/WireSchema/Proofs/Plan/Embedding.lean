import Mathlib.Logic.Relation
import WireSchema.Plan.Build
import WireSchema.Proofs.Schema.Lineage

namespace WireSchema

namespace ClassDef

/-- A class holds objects of `target` by value: through its parent, or in a field that is an object
or a fixed list of objects. -/
def Holds (c : ClassDef) (field target : String) : Prop :=
  (field = "inheritsFrom" ∧ c.parent? = some target) ∨ ∃ f ∈ c.fields, f.name = field ∧
    (f.type = .classRef target ∨ ∃ length text, f.type = .fixedList (.ofClass target) length text)

theorem mem_embedded_iff {c : ClassDef} {field target : String} :
    (field, target) ∈ c.embedded ↔ c.Holds field target := by
  rw [embedded, List.mem_append]
  apply or_congr
  · cases c.parent? <;> simp [eq_comm]
  · rw [List.mem_filterMap]
    refine exists_congr fun f => and_congr_right fun _ => ?_
    constructor
    · intro h
      split at h
      next name htype => cases h; exact ⟨rfl, .inl htype⟩
      next name length text htype => cases h; exact ⟨rfl, .inr ⟨length, text, htype⟩⟩
      next => cases h
    · rintro ⟨rfl, htype | ⟨length, text, htype⟩⟩
      · simp [htype]
      · simp [htype]

theorem mem_embedded {c : ClassDef} {target : String} :
    target ∈ c.embedded.map Prod.snd ↔ c.parent? = some target ∨ ∃ f ∈ c.fields,
      f.type = .classRef target ∨ ∃ length text, f.type = .fixedList (.ofClass target) length text := by
  have hpart : target ∈ c.embedded.map Prod.snd ↔ ∃ field, c.Holds field target := by
    simp [mem_embedded_iff]
  rw [hpart]
  constructor
  · rintro ⟨field, ⟨-, h⟩ | ⟨f, hf, -, h⟩⟩
    · exact .inl h
    · exact .inr ⟨f, hf, h⟩
  · rintro (h | ⟨f, hf, h⟩)
    · exact ⟨_, .inl ⟨rfl, h⟩⟩
    · exact ⟨f.name, .inr ⟨f, hf, rfl, h⟩⟩

end ClassDef

open Relation (ReflTransGen TransGen)

namespace Registry

/-- One step from a class to a part: its parent, or the class of a field that is an object or a
fixed list of objects. -/
def Embeds (r : Registry) (name target : String) : Prop :=
  ∃ c, r.find? name = some c ∧ (c.parent? = some target ∨ ∃ f ∈ c.fields,
    f.type = .classRef target ∨ ∃ length text, f.type = .fixedList (.ofClass target) length text)

/-- The same step, as the search takes it, among the classes of `pool`. -/
def Follows (pool : List ClassDef) (name target : String) : Prop :=
  ∃ c, pool.find? (·.name == name) = some c ∧ target ∈ c.embedded.map Prod.snd

theorem find?_without {name other : String} {pool : List ClassDef} {c : ClassDef} :
    (ClassDef.without name pool).find? (·.name == other) = some c ↔
      other ≠ name ∧ pool.find? (·.name == other) = some c := by
  rw [ClassDef.without, List.find?_filter]
  by_cases h : other = name
  · subst h
    simp [List.find?_eq_some_iff_append]
  · have hp (d : ClassDef) :
        decide ((d.name != name) = true ∧ (d.name == other) = true) = (d.name == other) := by
      by_cases hd : d.name = other <;> simp [hd, h]
    simp only [hp, ne_eq, h, not_false_eq_true, true_and]

theorem follows_of_without {name a b : String} {pool : List ClassDef}
    (h : Follows (ClassDef.without name pool) a b) : Follows pool a b := by
  obtain ⟨c, hc, hb⟩ := h
  exact ⟨c, (find?_without.1 hc).2, hb⟩

/-- A way through `pool` is one around `name`, or there is one around `name` from a part of it. -/
theorem follows_without {name x w : String} {pool : List ClassDef} {c : ClassDef}
    (hc : pool.find? (·.name == name) = some c) (h : ReflTransGen (Follows pool) w x) :
    ReflTransGen (Follows (ClassDef.without name pool)) w x ∨ ∃ target ∈ c.embedded.map Prod.snd,
      ReflTransGen (Follows (ClassDef.without name pool)) target x := by
  induction h using ReflTransGen.head_induction_on with
  | refl => exact .inl .refl
  | @head a b hab _ ih =>
      obtain ⟨d, hd, hb⟩ := hab
      rcases ih with ih | ih
      · by_cases ha : a = name
        · subst ha
          rw [hc] at hd
          cases hd
          exact .inr ⟨b, hb, ih⟩
        · exact .inl (.head ⟨d, find?_without.2 ⟨ha, hd⟩, hb⟩ ih)
      · exact .inr ih

theorem eq_of_follows_none {name x : String} {pool : List ClassDef}
    (hnone : ∀ c, pool.find? (·.name == name) ≠ some c) (h : ReflTransGen (Follows pool) name x) :
    x = name := by
  rcases h.cases_head with rfl | ⟨_, ⟨c, hc, -⟩, -⟩
  · rfl
  · exact absurd hc (hnone c)

theorem length_without_lt {name : String} {pool : List ClassDef} {c : ClassDef}
    (h : pool.find? (·.name == name) = some c) :
    (ClassDef.without name pool).length < pool.length := by
  refine List.length_filter_lt_length_iff_exists.2 ⟨c, List.mem_of_find?_eq_some h, ?_⟩
  have := List.find?_some h
  simp_all

/-- The names that are met when parts are followed from the names in `work`. The classes of `pool`
are those not followed yet. -/
def reached (pool : List ClassDef) : List String → List String
  | [] => []
  | name :: work =>
    match _found : pool.find? (·.name == name) with
    | none => name :: reached pool work
    | some c => name :: reached (ClassDef.without name pool) (c.embedded.map Prod.snd ++ work)
termination_by work => (pool.length, work.length)
decreasing_by
  · exact Prod.Lex.right _ (by simp)
  · exact Prod.Lex.left _ _ (length_without_lt _found)

theorem mem_reached {x : String} (pool : List ClassDef) (work : List String) :
    x ∈ reached pool work ↔ ∃ w ∈ work, ReflTransGen (Follows pool) w x := by
  fun_induction reached pool work with
  | case1 => simp
  | case2 pool name work hnone ih =>
      rw [List.mem_cons, ih]
      constructor
      · rintro (rfl | ⟨w, hw, h⟩)
        · exact ⟨x, by simp, .refl⟩
        · exact ⟨w, by simp [hw], h⟩
      · rintro ⟨w, hw, h⟩
        rcases List.mem_cons.1 hw with rfl | hw
        · exact .inl (eq_of_follows_none (by simp [hnone]) h)
        · exact .inr ⟨w, hw, h⟩
  | case3 pool name work c hc ih =>
      rw [List.mem_cons, ih]
      constructor
      · rintro (rfl | ⟨w, hw, h⟩)
        · exact ⟨x, by simp, .refl⟩
        · have h := ReflTransGen.mono (fun _ _ => follows_of_without) _ _ h
          rcases List.mem_append.1 hw with hw | hw
          · exact ⟨name, by simp, .head ⟨c, hc, hw⟩ h⟩
          · exact ⟨w, by simp [hw], h⟩
      · rintro ⟨w, hw, h⟩
        rcases follows_without hc h with h | ⟨target, ht, h⟩
        · rcases List.mem_cons.1 hw with rfl | hw
          · refine .inl (eq_of_follows_none ?_ h)
            intro d hd
            exact (find?_without.1 hd).1 rfl
          · exact .inr ⟨w, by simp [hw], h⟩
        · exact .inr ⟨target, List.mem_append_left _ ht, h⟩

def leads (pool : List ClassDef) (target : String) (part : String × String) : Bool :=
  (reached pool [part.2]).contains target

theorem leads_iff {pool : List ClassDef} {target : String} {part : String × String} :
    leads pool target part ↔ ReflTransGen (Follows pool) part.2 target := by
  rw [leads, List.contains_iff_mem, mem_reached]
  simp

/-- The search gives the field of the first part in `work` from which steps lead to `target`. That
classes are followed once only changes nothing: what they lead to has been searched before. -/
theorem searchParts_eq (target : String) (pool : List ClassDef) (work : List (String × String)) :
    searchParts target pool work = (work.find? (leads pool target)).map Prod.fst := by
  fun_induction searchParts target pool work with
  | case1 => rfl
  | case2 pool field work =>
      have hleads : leads pool target (field, target) := leads_iff.2 .refl
      rw [List.find?_cons_of_pos hleads, Option.map_some]
  | case3 pool field name work hne hnone ih =>
      rw [ih, List.find?_cons_of_neg]
      intro h
      exact hne (eq_of_follows_none (by simp [hnone]) (leads_iff.1 h)).symm
  | case4 pool field name work hne c hc parts ih =>
      have hfollow {w : String} (h : ReflTransGen (Follows pool) w target) :
          ReflTransGen (Follows (ClassDef.without name pool)) w target ∨
            ∃ part ∈ parts, leads (ClassDef.without name pool) target part := by
        refine (follows_without hc h).imp_right ?_
        rintro ⟨_, htarget, h⟩
        obtain ⟨part, hpart, rfl⟩ := List.mem_map.1 htarget
        exact ⟨(field, part.2), List.mem_map_of_mem (List.mem_reverse.2 hpart), leads_iff.2 h⟩
      rw [ih, List.find?_append]
      cases hfound : parts.find? (leads (ClassDef.without name pool) target) with
      | some part =>
          have hreaches := leads_iff.1 (List.find?_some hfound)
          obtain ⟨e, he, rfl⟩ := List.mem_map.1 (List.mem_of_find?_eq_some hfound)
          have hname : ReflTransGen (Follows pool) name target :=
            .head ⟨c, hc, List.mem_map_of_mem (List.mem_reverse.1 he)⟩
              (ReflTransGen.mono (fun _ _ => follows_of_without) _ _ hreaches)
          rw [List.find?_cons_of_pos (leads_iff.2 hname)]
          rfl
      | none =>
          have hparts : ¬∃ part ∈ parts, leads (ClassDef.without name pool) target part := by
            rintro ⟨part, hpart, h⟩
            exact List.find?_eq_none.1 hfound part hpart h
          have hwithout : leads (ClassDef.without name pool) target = leads pool target := by
            funext part
            rw [Bool.eq_iff_iff, leads_iff, leads_iff]
            exact ⟨ReflTransGen.mono (fun _ _ => follows_of_without) _ _,
              fun h => (hfollow h).resolve_right hparts⟩
          rw [hwithout, Option.none_or, List.find?_cons_of_neg]
          -- `name` is not followed any more, so nothing but itself can be met from it
          intro h
          rw [← hwithout] at h
          refine hne (eq_of_follows_none ?_ (leads_iff.1 h)).symm
          intro d hd
          exact (find?_without.1 hd).1 rfl

theorem selfEmbedding?_eq (r : Registry) (c : ClassDef) : r.selfEmbedding? c =
    (c.embedded.reverse.find? (leads r.classes c.name)).map Prod.fst :=
  searchParts_eq c.name r.classes c.embedded.reverse

theorem follows_classes (r : Registry) : Follows r.classes = r.Embeds := by
  funext a b
  exact propext (exists_congr fun c => and_congr_right fun _ => ClassDef.mem_embedded)

theorem leads_classes {r : Registry} {target : String} {part : String × String} :
    leads r.classes target part ↔ ReflTransGen r.Embeds part.2 target := by
  rw [leads_iff, follows_classes]

theorem selfEmbedding?_isSome {r : Registry} {c : ClassDef} (hc : c ∈ r.classes) :
    (r.selfEmbedding? c).isSome ↔ TransGen r.Embeds c.name c.name := by
  have hfind : r.find? c.name = some c := find?_eq_some.2 ⟨hc, rfl⟩
  rw [selfEmbedding?_eq, Option.isSome_map, List.find?_isSome]
  simp only [List.mem_reverse, leads_classes]
  rw [Relation.TransGen.head'_iff]
  constructor
  · rintro ⟨⟨field, target⟩, he, h⟩
    exact ⟨target, ⟨c, hfind, ClassDef.mem_embedded.1 (List.mem_map_of_mem he)⟩, h⟩
  · rintro ⟨target, ⟨d, hd, htarget⟩, h⟩
    rw [hfind] at hd
    cases hd
    obtain ⟨e, he, rfl⟩ := List.mem_map.1 (ClassDef.mem_embedded.2 htarget)
    exact ⟨e, he, h⟩

/-- The field that is given is that of the last part from which steps lead back. -/
theorem selfEmbedding?_eq_some {r : Registry} {c : ClassDef} {field : String} :
    r.selfEmbedding? c = some field ↔ ∃ before target after,
      c.embedded = before ++ (field, target) :: after ∧ ReflTransGen r.Embeds target c.name ∧
      ∀ part ∈ after, ¬ReflTransGen r.Embeds part.2 c.name := by
  rw [selfEmbedding?_eq, Option.map_eq_some_iff]
  simp only [List.find?_eq_some_iff_append, leads_classes]
  constructor
  · rintro ⟨⟨_, target⟩, ⟨h, pre, post, hparts, hpre⟩, rfl⟩
    refine ⟨post.reverse, target, pre.reverse, ?_, h, ?_⟩
    · rw [← List.reverse_reverse c.embedded, hparts]
      simp
    · intro part hpart
      rw [← leads_classes]
      simpa using hpre part (List.mem_reverse.1 hpart)
  · rintro ⟨before, target, after, hparts, h, hafter⟩
    refine ⟨(field, target), ⟨h, after.reverse, before.reverse, by simp [hparts], ?_⟩, rfl⟩
    intro part hpart
    have hlater := hafter part (List.mem_reverse.1 hpart)
    rw [← leads_classes] at hlater
    simpa using hlater

def below (r : Registry) (name : String) : List String :=
  match r.find? name with
  | none => []
  | some c => reached r.classes (c.embedded.map Prod.snd)

theorem mem_below {r : Registry} {name x : String} :
    x ∈ r.below name ↔ TransGen r.Embeds name x := by
  rw [Relation.TransGen.head'_iff]
  rw [below]
  split
  next hnone =>
    simp only [List.not_mem_nil, false_iff, not_exists, not_and]
    rintro target ⟨c, hc, -⟩
    simp [hnone] at hc
  next c hc =>
    rw [mem_reached, follows_classes]
    constructor
    · rintro ⟨w, hw, h⟩
      exact ⟨w, ⟨c, hc, ClassDef.mem_embedded.1 hw⟩, h⟩
    · rintro ⟨w, ⟨d, hd, hw⟩, h⟩
      rw [hc] at hd
      cases hd
      exact ⟨w, ClassDef.mem_embedded.2 hw, h⟩

/-- How many classes lie below a class: a bound on how deeply its parts are nested. -/
def rank (r : Registry) (name : String) : Nat :=
  (r.names.filter (r.below name).contains).length

theorem rank_le (r : Registry) (name : String) : r.rank name ≤ r.classes.length := by
  simpa [rank, names] using List.length_filter_le (r.below name).contains r.names

theorem rank_lt {r : Registry} {a b : String} (hab : r.Embeds a b) (hb : r.contains b)
    (hself : ¬TransGen r.Embeds b b) : r.rank b < r.rank a := by
  have hsub : r.names.filter (r.below b).contains =
      (r.names.filter (r.below a).contains).filter (r.below b).contains := by
    rw [List.filter_filter]
    apply List.filter_congr
    intro x _
    by_cases hx : x ∈ r.below b
    · have : x ∈ r.below a := mem_below.2 (.head hab (mem_below.1 hx))
      simp [hx, this]
    · simp [hx]
  rw [rank, hsub]
  refine List.length_filter_lt_length_iff_exists.2 ⟨b, ?_, ?_⟩
  · obtain ⟨c, hc⟩ := contains_iff.1 hb
    obtain ⟨hmem, rfl⟩ := find?_eq_some.1 hc
    simpa [names, mem_below.2 (TransGen.single hab)] using ⟨c, hmem, rfl⟩
  · simpa [mem_below] using hself

end Registry

/-- The check for a class in its own parts fails exactly if the class lies on a circle of steps. The
field that it names is the first step of such a circle, and no part declared behind it is one. -/
theorem Plan.checkEmbedding_exact {r : Registry} {c : ClassDef} (hc : c ∈ r.classes) :
    ((∃ e, checkEmbedding r c = .error e) ↔ TransGen r.Embeds c.name c.name) ∧
    ∀ e, checkEmbedding r c = .error e → ∃ field target before after,
      e = .unsupportedLayout c.name field (.embedsItself c.name) ∧
      c.Holds field target ∧ ReflTransGen r.Embeds target c.name ∧
      c.embedded = before ++ (field, target) :: after ∧
      ∀ part ∈ after, ¬ReflTransGen r.Embeds part.2 c.name := by
  have hself := Registry.selfEmbedding?_isSome hc
  cases h : r.selfEmbedding? c with
  | none =>
      have hok : checkEmbedding r c = .ok () := by rw [checkEmbedding, h]
      rw [h] at hself
      simpa [hok] using hself
  | some field =>
      have herror : checkEmbedding r c =
          .error (.unsupportedLayout c.name field (.embedsItself c.name)) := by rw [checkEmbedding, h]
      rw [h] at hself
      refine ⟨⟨fun _ => hself.1 rfl, fun _ => ⟨_, herror⟩⟩, ?_⟩
      intro e he
      rw [herror] at he
      cases he
      obtain ⟨before, target, after, hparts, hback, hafter⟩ := Registry.selfEmbedding?_eq_some.1 h
      have hholds : c.Holds field target := ClassDef.mem_embedded_iff.1 (by simp [hparts])
      exact ⟨field, target, before, after, rfl, hholds, hback, hparts, hafter⟩

namespace Registry

/-- Its parts are of a class that is not declared, of a derived class, and of a class that holds
itself but not this one. -/
def sampleRing : ClassDef where
  name := "A"
  fields := [⟨"x", none, .classRef "X"⟩, ⟨"y", none, .fixedList (.ofClass "B") 2 false⟩,
    ⟨"z", none, .classRef "C"⟩]

def sampleRings : Registry where
  classes := [sampleRing, { name := "B", parent := "A" },
    { name := "C", fields := [⟨"c", none, .classRef "C"⟩] }]
  nodup := by decide

theorem eq_of_embeds_sampleRings {name target : String}
    (h : ReflTransGen sampleRings.Embeds name target) (hname : name = "X" ∨ name = "C") :
    target = name := by
  induction h with
  | refl => rfl
  | tail _ h ih =>
      subst ih
      obtain ⟨d, hd, h⟩ := h
      rcases hname with rfl | rfl
      · cases hd
      · cases hd
        exact List.mem_singleton.1 (ClassDef.mem_embedded.2 h)

theorem embeds_sampleRings : sampleRings.Embeds "A" "B" ∧ sampleRings.Embeds "B" "A" := by
  constructor
  · exact ⟨sampleRing, rfl, ClassDef.mem_embedded.1 (by decide)⟩
  · exact ⟨_, rfl, .inl rfl⟩

end Registry

theorem Plan.checkEmbedding_exact_rings : Registry.sampleRing ∈ Registry.sampleRings.classes ∧
    checkEmbedding Registry.sampleRings Registry.sampleRing =
      .error (.unsupportedLayout "A" "y" (.embedsItself "A")) := by
  have hmem : Registry.sampleRing ∈ Registry.sampleRings.classes := by decide
  obtain ⟨hiff, hfield⟩ := checkEmbedding_exact hmem
  obtain ⟨hab, hba⟩ := Registry.embeds_sampleRings
  obtain ⟨e, he⟩ := hiff.2 (.head hab (.single hba))
  refine ⟨hmem, ?_⟩
  obtain ⟨field, target, -, -, rfl, hholds, hback, -, -⟩ := hfield e he
  have hpart := ClassDef.mem_embedded_iff.2 hholds
  have hparts : Registry.sampleRing.embedded = [("x", "X"), ("y", "B"), ("z", "C")] := by decide
  simp only [hparts, List.mem_cons, Prod.mk.injEq, List.not_mem_nil, or_false] at hpart
  rcases hpart with ⟨rfl, rfl⟩ | ⟨rfl, rfl⟩ | ⟨rfl, rfl⟩
  · exact absurd (Registry.eq_of_embeds_sampleRings hback (.inl rfl)) (by decide)
  · exact he
  · exact absurd (Registry.eq_of_embeds_sampleRings hback (.inr rfl)) (by decide)

end WireSchema
