import Mathlib.Data.List.DropRight
import WireSchema.Text.Basic

namespace WireSchema.Text

def Padded (core cs : List Char) : Prop :=
  ∃ front back, cs = front ++ core ++ back ∧ (∀ c ∈ front, isBlank c) ∧ ∀ c ∈ back, isBlank c

def Solid (cs : List Char) : Prop :=
  ∀ c ∈ cs, isBlank c = false

variable {core cs : List Char}

theorem trimChars_eq_rdropWhile (cs : List Char) :
    trimChars cs = (cs.dropWhile isBlank).rdropWhile isBlank := rfl

theorem padded_trimChars (cs : List Char) : Padded (trimChars cs) cs := by
  refine ⟨cs.takeWhile isBlank, (cs.dropWhile isBlank).rtakeWhile isBlank, ?_, ?_, ?_⟩
  · rw [trimChars_eq_rdropWhile, List.append_assoc, List.rdropWhile_append_rtakeWhile,
      List.takeWhile_append_dropWhile]
  · exact fun c => List.mem_takeWhile_imp
  · exact fun c => List.mem_rtakeWhile_imp

theorem rdropWhile_append_of_pos {front back : List Char} (h : ∀ c ∈ back, isBlank c) :
    (front ++ back).rdropWhile isBlank = front.rdropWhile isBlank := by
  rw [List.rdropWhile, List.rdropWhile, List.reverse_append, List.dropWhile_append_of_pos]
  intro c hc
  exact h c (List.mem_reverse.1 hc)

theorem Padded.trimChars_eq (h : Padded core cs) : trimChars cs = trimChars core := by
  obtain ⟨front, back, rfl, hfront, hback⟩ := h
  rw [trimChars_eq_rdropWhile, trimChars_eq_rdropWhile, List.append_assoc,
    List.dropWhile_append_of_pos hfront, List.dropWhile_append]
  split
  next hcore =>
    rw [List.isEmpty_iff.1 hcore, List.dropWhile_eq_nil_iff.2 hback]
  next => exact rdropWhile_append_of_pos hback

theorem Solid.trimChars_eq_self (h : Solid core) : trimChars core = core := by
  have hfirst : core.dropWhile isBlank = core := by
    rw [List.dropWhile_eq_self_iff]
    intro hpos
    simp [h _ (List.getElem_mem hpos)]
  rw [trimChars_eq_rdropWhile, hfirst, List.rdropWhile_eq_self_iff]
  intro hne
  simp [h _ (List.getLast_mem hne)]

theorem Solid.trimChars_eq_iff (h : Solid core) : trimChars cs = core ↔ Padded core cs := by
  constructor
  · rintro rfl
    exact padded_trimChars cs
  · intro hpadded
    rw [hpadded.trimChars_eq, h.trimChars_eq_self]

end WireSchema.Text
