import WireSchema.Emit.Code
import WireSchema.Text.Basic

namespace WireSchema.Text

def lines (cs : List Char) : List (List Char) :=
  cs.splitOnP (· == '\n')

def isDocumentation (line : List Char) : Bool :=
  ['/', '/', '/'].isPrefixOf (line.dropWhile isBlank)

def codeLines (cs : List Char) : List (List Char) :=
  (lines cs).filter (!isDocumentation ·)

theorem lines_append (front back : List Char) :
    lines (front ++ '\n' :: back) = lines front ++ lines back := by
  simp [lines, List.splitOnP_append_cons]

theorem codeLines_append (front back : List Char) :
    codeLines (front ++ '\n' :: back) = codeLines front ++ codeLines back := by
  rw [codeLines, lines_append, List.filter_append, codeLines, codeLines]

end WireSchema.Text

namespace WireSchema.Code

open Text

def indented (unit : String) (level : Nat) (text : String) : List Char :=
  if text.isEmpty then [] else (String.join (List.replicate level unit)).toList ++ text.toList

def levelAfter (level : Nat) : Code → Nat
  | [] => level
  | .line _ :: rest => levelAfter level rest
  | .opening _ :: rest => levelAfter (level + 1) rest
  | .closing _ :: rest => levelAfter (level - 1) rest

/-- The lines that some code is written on, less those that are documentation. -/
def keptLines (unit : String) (level : Nat) : Code → List (List Char)
  | [] => []
  | .line text :: rest => codeLines (indented unit level text) ++ keptLines unit level rest
  | .opening text :: rest =>
    codeLines (indented unit level text) ++ keptLines unit (level + 1) rest
  | .closing text :: rest =>
    codeLines (indented unit (level - 1) text) ++ keptLines unit (level - 1) rest

variable {unit : String} {level : Nat}

theorem toList_renderLine (text : String) :
    (renderLine unit level text).toList = indented unit level text ++ ['\n'] := by
  rw [renderLine, indented]
  split
  · rfl
  · simp

theorem levelAfter_append (a b : Code) :
    levelAfter level (a ++ b) = levelAfter (levelAfter level a) b := by
  induction a generalizing level with
  | nil => rfl
  | cons first rest ih => cases first <;> exact ih

theorem keptLines_append (a b : Code) : keptLines unit level (a ++ b) =
    keptLines unit level a ++ keptLines unit (levelAfter level a) b := by
  induction a generalizing level with
  | nil => rfl
  | cons first rest ih =>
      cases first with
      | line text => simp only [List.cons_append, keptLines, levelAfter, ih, List.append_assoc]
      | opening text => simp only [List.cons_append, keptLines, levelAfter, ih, List.append_assoc]
      | closing text => simp only [List.cons_append, keptLines, levelAfter, ih, List.append_assoc]

theorem codeLines_renderLines (code : Code) :
    codeLines (String.join (renderLines unit level code)).toList =
      keptLines unit level code ++ [[]] := by
  have hline (text : String) (rest : List String) (n : Nat) :
      codeLines (String.join (renderLine unit n text :: rest)).toList =
        codeLines (indented unit n text) ++ codeLines (String.join rest).toList := by
    rw [String.join_cons, String.toList_append, toList_renderLine, List.append_assoc]
    exact codeLines_append _ _
  induction code generalizing level with
  | nil => rfl
  | cons first rest ih =>
      cases first with
      | line text => rw [renderLines, hline, ih, keptLines, List.append_assoc]
      | opening text => rw [renderLines, hline, ih, keptLines, List.append_assoc]
      | closing text => rw [renderLines, hline, ih, keptLines, List.append_assoc]

theorem codeLines_render (code : Code) :
    codeLines (render unit code).toList = keptLines unit 0 code ++ [[]] :=
  codeLines_renderLines code

/-- The lines of `b` are those of `a` in their order, with `more` others among them. -/
def Gains (unit : String) (a b : Code) (more : Nat) : Prop :=
  ∀ level, levelAfter level a = levelAfter level b ∧
    (keptLines unit level a).Sublist (keptLines unit level b) ∧
    (keptLines unit level b).length = (keptLines unit level a).length + more

namespace Gains

variable {a b a' b' : Code} {more more' : Nat}

theorem refl (a : Code) : Gains unit a a 0 :=
  fun _ => ⟨rfl, List.Sublist.refl _, rfl⟩

theorem append (h : Gains unit a b more) (h' : Gains unit a' b' more') :
    Gains unit (a ++ a') (b ++ b') (more + more') := by
  intro level
  obtain ⟨hlevel, hsublist, hlength⟩ := h level
  obtain ⟨hlevel', hsublist', hlength'⟩ := h' (levelAfter level a)
  rw [levelAfter_append, levelAfter_append, keptLines_append, keptLines_append, ← hlevel]
  refine ⟨hlevel', hsublist.append hsublist', ?_⟩
  rw [List.length_append, List.length_append, hlength, hlength']
  omega

theorem block (first last : String) (h : Gains unit a b more) :
    Gains unit (block first a last) (block first b last) more := by
  simpa [Code.block] using ((refl [.opening first]).append h).append (refl [.closing last])

theorem codeLines_eq_iff (h : Gains unit a b more) :
    codeLines (render unit a).toList = codeLines (render unit b).toList ↔ more = 0 := by
  obtain ⟨-, hsublist, hlength⟩ := h 0
  rw [codeLines_render, codeLines_render, List.append_left_inj]
  constructor
  · intro heq
    rw [heq] at hlength
    omega
  · rintro rfl
    exact hsublist.eq_of_length hlength.symm

end Gains

end WireSchema.Code
