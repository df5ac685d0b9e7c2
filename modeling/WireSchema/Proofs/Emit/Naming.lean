import Mathlib.Data.List.Forall2
import WireSchema.Emit.Rust.Names

namespace WireSchema

namespace Text

def IsMark (c : Char) : Prop :=
  c = '/' ∨ c = '.'

instance (c : Char) : Decidable (IsMark c) :=
  inferInstanceAs (Decidable (c = '/' ∨ c = '.'))

/-- The characters that a character is spelled with: a mark with itself, and any other one with some
that are no marks. -/
def Respells (c : Char) (cs : List Char) : Prop :=
  if IsMark c then cs = [c] else cs ≠ [] ∧ ∀ d ∈ cs, ¬IsMark d

theorem respells_mark {c : Char} (hc : IsMark c) {cs : List Char} : Respells c cs ↔ cs = [c] := by
  rw [Respells, if_pos hc]

theorem respells_other {c : Char} (hc : ¬IsMark c) {cs : List Char} :
    Respells c cs ↔ cs ≠ [] ∧ ∀ d ∈ cs, ¬IsMark d := by
  rw [Respells, if_neg hc]

theorem respells_self (c : Char) : Respells c [c] := by
  by_cases hc : IsMark c
  · exact (respells_mark hc).2 rfl
  · exact (respells_other hc).2 ⟨List.cons_ne_nil c [], by simpa using hc⟩

theorem toNat_of_isMark {c : Char} (hc : IsMark c) : c.toNat ≤ 0x2f := by
  rcases hc with rfl | rfl <;> decide

theorem toNat_ofNat (n : Nat) : (Char.ofNat n).toNat = n ∨ (Char.ofNat n).toNat = 0 := by
  by_cases hvalid : n.isValidChar
  · exact .inl (by rw [Char.ofNat, dif_pos hvalid]; rfl)
  · exact .inr (by rw [Char.ofNat, dif_neg hvalid]; rfl)

theorem not_isMark_ofNat {n : Nat} (hn : 0x2f < n) : ¬IsMark (Char.ofNat n) := by
  have hcode := toNat_ofNat n
  rintro (h | h)
  · have hslash : (Char.ofNat n).toNat = 0x2f := by rw [h]; rfl
    omega
  · have hdot : (Char.ofNat n).toNat = 0x2e := by rw [h]; rfl
    omega

theorem CaseRun.of_find? {n : Nat} {runs : List CaseRun} {r : CaseRun}
    (h : CaseRun.find? n runs = some r) : r ∈ runs ∧ r.first ≤ n ∧ n ≤ r.last := by
  induction runs with
  | nil => cases h
  | cons r' runs ih =>
      rw [CaseRun.find?] at h
      split at h
      · cases h
      · split at h
        next hin =>
          cases h
          rw [Bool.and_eq_true, decide_eq_true_iff] at hin
          exact ⟨List.mem_cons_self, by omega, hin.1⟩
        next => exact ⟨List.mem_cons_of_mem _ (ih h).1, (ih h).2⟩

/-- A table of case in which no mark occurs, and which maps nothing to a mark. -/
structure ClearOfMarks (expansions : List (Nat × List Nat)) (runs : List CaseRun) : Prop where
  runs : ∀ r ∈ runs, 0x2f < r.first ∧ (0x2f : Int) < r.first + r.shift
  expansions : ∀ e ∈ expansions, 0x2f < e.1 ∧ e.2 ≠ [] ∧ ∀ n ∈ e.2, 0x2f < n

theorem respells_mapCase {expansions : List (Nat × List Nat)} {runs : List CaseRun}
    (h : ClearOfMarks expansions runs) (c : Char) : Respells c (mapCase expansions runs c) := by
  rw [mapCase]
  cases hexpansion : expansions.lookup c.toNat with
  | some ns =>
      obtain ⟨pre, post, hsplit, -⟩ := List.lookup_eq_some_iff.1 hexpansion
      obtain ⟨hcode, hne, hclear⟩ := h.expansions (c.toNat, ns) (by simp [hsplit])
      have hc : ¬IsMark c := fun hc => absurd (toNat_of_isMark hc) (by omega)
      refine (respells_other hc).2 ⟨by simpa using hne, fun d hd => ?_⟩
      obtain ⟨n, hn, rfl⟩ := List.mem_map.1 hd
      exact not_isMark_ofNat (hclear n hn)
  | none =>
      cases hrun : CaseRun.find? c.toNat runs with
      | none => exact respells_self c
      | some r =>
          obtain ⟨hmem, hle, -⟩ := CaseRun.of_find? hrun
          obtain ⟨hfirst, hshift⟩ := h.runs r hmem
          have hc : ¬IsMark c := fun hc => absurd (toNat_of_isMark hc) (by omega)
          refine (respells_other hc).2 ⟨List.cons_ne_nil _ _, fun d hd => ?_⟩
          rw [List.mem_singleton.1 hd]
          exact not_isMark_ofNat (by omega)

theorem clearOfMarks_upper : ClearOfMarks upperExpansions upperRuns :=
  ⟨by decide +kernel, by decide +kernel⟩

theorem clearOfMarks_lower : ClearOfMarks lowerExpansions lowerRuns :=
  ⟨by decide +kernel, by decide +kernel⟩

theorem not_isMark_of_isUpper {c : Char} (h : isUpper c) : ¬IsMark c := by
  obtain ⟨r, hr⟩ := Option.isSome_iff_exists.1 h
  obtain ⟨hmem, hle, -⟩ := CaseRun.of_find? hr
  have hfirst : ∀ r ∈ uppercaseRuns, 0x2f < r.first := by decide +kernel
  have hcode := hfirst r hmem
  exact fun hc => absurd (toNat_of_isMark hc) (by omega)

/-- A text in which each character is spelled in another way. -/
inductive Respelled : List Char → List Char → Prop
  | nil : Respelled [] []
  | cons {c : Char} {cs xs ys : List Char} : Respells c cs → Respelled xs ys →
      Respelled (c :: xs) (cs ++ ys)

namespace Respelled

variable {xs ys xs' ys' : List Char}

theorem refl (xs : List Char) : Respelled xs xs := by
  induction xs with
  | nil => exact .nil
  | cons c xs ih => exact .cons (respells_self c) ih

theorem append (h : Respelled xs ys) (h' : Respelled xs' ys') :
    Respelled (xs ++ xs') (ys ++ ys') := by
  induction h with
  | nil => exact h'
  | cons hc _ ih =>
      rw [List.cons_append, List.append_assoc]
      exact .cons hc ih

theorem eq_iff (h : Respelled xs ys) {ms : List Char} (hms : ∀ m ∈ ms, IsMark m) :
    ys = ms ↔ xs = ms := by
  induction h generalizing ms with
  | nil => rfl
  | @cons c cs xs ys hc _ ih =>
      by_cases hmark : IsMark c
      · obtain rfl := (respells_mark hmark).1 hc
        cases ms with
        | nil => simp
        | cons m ms =>
            simp only [List.singleton_append, List.cons.injEq]
            rw [ih (List.forall_mem_cons.1 hms).2]
      · obtain ⟨hne, hcs⟩ := (respells_other hmark).1 hc
        cases cs with
        | nil => exact absurd rfl hne
        | cons d cs =>
            refine iff_of_false ?_ ?_
            · rintro rfl
              exact hcs d List.mem_cons_self (hms d List.mem_cons_self)
            · rintro rfl
              exact hmark (hms c List.mem_cons_self)

theorem mem_iff (h : Respelled xs ys) {m : Char} (hm : IsMark m) : m ∈ ys ↔ m ∈ xs := by
  induction h with
  | nil => rfl
  | @cons c cs xs ys hc _ ih =>
      rw [List.mem_append, List.mem_cons, ih]
      by_cases hmark : IsMark c
      · rw [(respells_mark hmark).1 hc, List.mem_singleton]
      · obtain ⟨-, hcs⟩ := (respells_other hmark).1 hc
        have hne : m ≠ c := fun heq => hmark (heq ▸ hm)
        have hmem : m ∉ cs := fun hmem => hcs m hmem hm
        simp only [hne, hmem, false_or]

theorem head?_iff (h : Respelled xs ys) {m : Char} (hm : IsMark m) :
    ys.head? = some m ↔ xs.head? = some m := by
  cases h with
  | nil => rfl
  | @cons c cs xs ys hc _ =>
      by_cases hmark : IsMark c
      · rw [(respells_mark hmark).1 hc]
        rfl
      · obtain ⟨hne, hcs⟩ := (respells_other hmark).1 hc
        cases cs with
        | nil => exact absurd rfl hne
        | cons d cs =>
            refine iff_of_false ?_ ?_
            · rintro ⟨⟩
              exact hcs m List.mem_cons_self hm
            · rintro ⟨⟩
              exact hmark hm

end Respelled

end Text

namespace Naming

open Text

theorem respelled_snakeChars (previous : Option Char) (cs : List Char) :
    Respelled cs (snakeChars previous cs) := by
  induction cs generalizing previous with
  | nil => exact .nil
  | cons c cs ih =>
      rw [snakeChars]
      refine .cons ?_ (ih (some c))
      by_cases hupper : isUpper c
      · have hc := not_isMark_of_isUpper hupper
        obtain ⟨hne, hclear⟩ := (respells_other hc).1 (respells_mapCase clearOfMarks_lower c)
        rw [if_pos hupper]
        refine (respells_other hc).2 ⟨List.append_ne_nil_of_right_ne_nil _ hne, fun d hd => ?_⟩
        rcases List.mem_append.1 hd with hd | hd
        · split at hd
          · rw [List.mem_singleton.1 hd]
            decide
          · cases hd
        · exact hclear d hd
      · rw [if_neg hupper]
        split
        next hgap =>
          have hc : ¬IsMark c := by
            rintro (rfl | rfl) <;> revert hgap <;> decide
          exact (respells_other hc).2 ⟨List.cons_ne_nil _ _, by simp [IsMark]⟩
        next => exact respells_self c

theorem respelled_snake (s : String) : Respelled s.toList (snake s).toList := by
  rw [snake, String.toList_ofList]
  exact respelled_snakeChars none s.toList

theorem respelled_capitalize (s : String) : Respelled s.toList (capitalize s).toList := by
  rw [capitalize]
  split
  next h =>
    rw [h]
    exact .nil
  next c rest h =>
    rw [h, String.toList_ofList]
    exact .cons (respells_mapCase clearOfMarks_upper c) (.refl rest)

def isGap (c : Char) : Bool :=
  c == '_' || c == '-' || c == ' '

def compact (s : String) : String :=
  String.ofList (s.toList.filter (!isGap ·))

theorem flatten_splitOnP {α : Type} (p : α → Bool) (xs : List α) :
    (xs.splitOnP p).flatten = xs.filter (!p ·) := by
  induction xs with
  | nil => rfl
  | cons x xs ih =>
      rw [List.splitOnP_cons_eq_if_modifyHead, List.filter_cons, ← ih]
      by_cases hx : p x
      · simp [hx]
      · cases hsplit : xs.splitOnP p with
        | nil => exact absurd hsplit (List.splitOnP_ne_nil p xs)
        | cons word words => simp [hx]

theorem splitOnP_append {α : Type} {p : α → Bool} {xs : List α} (h : ∀ x ∈ xs, p x = false)
    (ys : List α) : (xs ++ ys).splitOnP p = (ys.splitOnP p).modifyHead (xs ++ ·) := by
  induction xs with
  | nil =>
      rw [List.nil_append]
      cases ys.splitOnP p <;> rfl
  | cons x xs ih =>
      obtain ⟨hx, hxs⟩ := List.forall_mem_cons.1 h
      rw [List.cons_append, List.splitOnP_cons_eq_if_modifyHead, if_neg (by simp [hx]), ih hxs,
        List.modifyHead_modifyHead]
      rfl

theorem respelled_pascal (s : String) : Respelled (compact s).toList (pascal s).toList := by
  have hwords (words : List (List Char)) : Respelled words.flatten
      (String.join (((words.filter (!·.isEmpty)).map String.ofList).map capitalize)).toList := by
    induction words with
    | nil => exact .nil
    | cons word words ih =>
        cases word with
        | nil => exact ih
        | cons c rest =>
            have hword := respelled_capitalize (String.ofList (c :: rest))
            rw [String.toList_ofList] at hword
            simpa [String.toList_join] using hword.append ih
  rw [pascal, compact, String.toList_ofList, ← flatten_splitOnP]
  exact hwords _

end Naming

namespace Rust

theorem escape_of_mem {s : String} (h : s ∈ keywords) : escape s = s ++ "_" :=
  if_pos (List.contains_iff_mem.2 h)

theorem escape_of_notMem {s : String} (h : s ∉ keywords) : escape s = s :=
  if_neg (mt List.contains_iff_mem.1 h)

theorem append_notMem_keywords (s : String) : s ++ "_" ∉ keywords := by
  have hlast : ∀ k ∈ keywords, k.toList.getLast? ≠ some '_' := by decide
  intro h
  exact hlast _ h (by simp)

theorem escape_notMem_keywords (s : String) : escape s ∉ keywords := by
  by_cases h : s ∈ keywords
  · rw [escape_of_mem h]
    exact append_notMem_keywords s
  · rwa [escape_of_notMem h]

end Rust

end WireSchema
