import Mathlib.Data.List.Induction
import WireSchema.Proofs.Emit.Lines
import WireSchema.Proofs.Emit.Outline

namespace WireSchema

structure Writer where
  text : String
  level : Nat

namespace Writer

variable {unit : String}

def start : Writer := ⟨"", 0⟩

def line (unit : String) (w : Writer) (text : String) : Writer :=
  ⟨w.text ++ Code.renderLine unit w.level text, w.level⟩

def step (unit : String) (w : Writer) : CodeLine → Writer
  | .line text => w.line unit text
  | .opening text => ⟨(w.line unit text).text, w.level + 1⟩
  | .closing text => line unit ⟨w.text, w.level - 1⟩ text

def run (unit : String) (w : Writer) (code : Code) : Writer :=
  code.foldl (step unit) w

theorem run_cons (w : Writer) (first : CodeLine) (rest : Code) :
    w.run unit (first :: rest) = (w.step unit first).run unit rest := rfl

theorem level_run (w : Writer) (code : Code) :
    (w.run unit code).level = Code.levelAfter w.level code := by
  induction code generalizing w with
  | nil => rfl
  | cons first rest ih =>
      rw [run_cons, ih]
      cases first <;> rfl

theorem text_run (w : Writer) (code : Code) :
    (w.run unit code).text = w.text ++ String.join (Code.renderLines unit w.level code) := by
  induction code generalizing w with
  | nil => exact (String.append_empty).symm
  | cons first rest ih =>
      rw [run_cons, ih]
      cases first with
      | line text => rw [Code.renderLines, String.join_cons, ← String.append_assoc, step, line]
      | opening text => rw [Code.renderLines, String.join_cons, ← String.append_assoc, step, line]
      | closing text => rw [Code.renderLines, String.join_cons, ← String.append_assoc, step, line]

theorem text_run_start (code : Code) : (start.run unit code).text = Code.render unit code := by
  rw [text_run, start, String.empty_append, Code.render]

end Writer

namespace Code

section Levels

variable {code : Code} {heads : List String}

theorem Outline.levelAfter_eq (h : Outline code heads) (level : Nat) :
    levelAfter level code = level := by
  induction h generalizing level with
  | nil => rfl
  | line _ ih => exact ih level
  | block _ _ ihinside ihbehind =>
      rw [levelAfter, levelAfter_append, ihinside, levelAfter, Nat.add_sub_cancel, ihbehind]

theorem exists_of_append_eq {a b before behind : Code} {x : CodeLine}
    (h : a ++ b = before ++ x :: behind) :
    (∃ more, a = before ++ x :: more) ∨ ∃ more, before = a ++ more ∧ b = more ++ x :: behind := by
  obtain ⟨more, hbefore, hb⟩ | ⟨more, ha, hmore⟩ := List.append_eq_append_iff.1 h
  · exact .inr ⟨more, hbefore, hb⟩
  · cases more with
    | nil =>
        rw [List.append_nil] at ha
        exact .inr ⟨[], by rw [ha, List.append_nil], hmore.symm⟩
    | cons first more =>
        obtain ⟨rfl, -⟩ := List.cons.inj hmore
        exact .inl ⟨more, ha⟩

theorem Outline.lt_levelAfter (h : Outline code heads) (level : Nat) {before behind : Code}
    {last : String} (hcode : code = before ++ .closing last :: behind) :
    level < levelAfter level before := by
  induction h generalizing level before behind with
  | nil => exact absurd hcode.symm (List.append_ne_nil_of_right_ne_nil _ (List.cons_ne_nil _ _))
  | line _ ih =>
      cases before with
      | nil => cases hcode
      | cons first before =>
          obtain ⟨rfl, hrest⟩ := List.cons.inj hcode
          rw [levelAfter]
          exact ih level hrest
  | block hinside _ ihinside ihbehind =>
      cases before with
      | nil => cases hcode
      | cons first before =>
          obtain ⟨rfl, hrest⟩ := List.cons.inj hcode
          rw [levelAfter]
          -- the line closes a block inside, the block itself, or one behind it
          obtain ⟨more, hbody⟩ | ⟨more, rfl, hmore⟩ := exists_of_append_eq hrest
          · exact Nat.lt_of_succ_lt (ihinside (level + 1) hbody)
          · rw [levelAfter_append, hinside.levelAfter_eq]
            cases more with
            | nil => exact Nat.lt_succ_self level
            | cons first more =>
                obtain ⟨rfl, hbehind⟩ := List.cons.inj hmore
                exact ihbehind level hbehind

theorem Outline.le_levelAfter (h : Outline code heads) (level : Nat) {before behind : Code}
    (hcode : code = before ++ behind) : level ≤ levelAfter level before := by
  induction before using List.reverseRecOn generalizing behind with
  | nil => exact Nat.le_refl level
  | append_singleton before last ih =>
      rw [List.append_assoc, List.singleton_append] at hcode
      rw [levelAfter_append]
      cases last with
      | line text => exact ih hcode
      | opening text => exact Nat.le_succ_of_le (ih hcode)
      | closing text => exact Nat.le_sub_one_of_lt (h.lt_levelAfter level hcode)

end Levels

/-- Written from the start, a block is closed only where one is open, and none is left open. -/
structure Closes (unit : String) (code : Code) : Prop where
  isOpen : ∀ before last behind, code = before ++ .closing last :: behind →
    0 < (Writer.start.run unit before).level
  settled : (Writer.start.run unit code).level = 0

/-- Parts of a code, one behind the other. The indentation is `level` before and behind each of
them, and not less on the way. -/
structure Row (unit : String) (code front : Code) (parts : List Code) (back : Code)
    (level : Nat) : Prop where
  inside : code = front ++ parts.flatten ++ back
  levels : ∀ earlier later, parts = earlier ++ later →
    (Writer.start.run unit (front ++ earlier.flatten)).level = level
  lowest : ∀ before behind, parts.flatten = before ++ behind →
    level ≤ (Writer.start.run unit (front ++ before)).level

section Parts

variable {unit : String} {code : Code} {heads : List String}

theorem Balanced.closes (h : Balanced code) : Closes unit code := by
  obtain ⟨heads, h⟩ := h
  constructor
  · intro before last behind hcode
    rw [Writer.level_run]
    exact h.lt_levelAfter 0 hcode
  · rw [Writer.level_run]
    exact h.levelAfter_eq 0

theorem balanced_flatten {parts : List Code} (h : ∀ part ∈ parts, Balanced part) :
    Balanced parts.flatten := by
  induction parts with
  | nil => exact balanced_nil
  | cons part parts ih =>
      obtain ⟨hpart, hparts⟩ := List.forall_mem_cons.1 h
      exact hpart.append (ih hparts)

theorem row_of_balanced {front back : Code} {parts : List Code} {level : Nat}
    (hcode : code = front ++ parts.flatten ++ back) (hfront : levelAfter 0 front = level)
    (h : ∀ part ∈ parts, Balanced part) : Row unit code front parts back level where
  inside := hcode
  levels := by
    rintro earlier later rfl
    obtain ⟨heads, hearlier⟩ :=
      balanced_flatten fun part hpart => h part (List.mem_append_left later hpart)
    rw [Writer.level_run, levelAfter_append, hearlier.levelAfter_eq]
    exact hfront
  lowest := by
    intro before behind hparts
    obtain ⟨heads, hall⟩ := balanced_flatten h
    rw [Writer.level_run, levelAfter_append, Writer.start, hfront]
    exact hall.le_levelAfter level hparts

/-- The parts of a block's body stand one step in. -/
theorem row_of_block {front back : Code} {parts : List Code} {first last : String}
    (hcode : code = front ++ block first parts.flatten last ++ back) (hfront : Balanced front)
    (h : ∀ part ∈ parts, Balanced part) :
    Row unit code (front ++ [.opening first]) parts (.closing last :: back) 1 := by
  obtain ⟨heads, hfront⟩ := hfront
  have hlevel : levelAfter 0 (front ++ [.opening first]) = 1 := by
    rw [levelAfter_append, hfront.levelAfter_eq]
    rfl
  apply row_of_balanced _ hlevel h
  simp [hcode, block]

def heading? : Code → Option String
  | .opening text :: _ => some text
  | _ => none

/-- The outer blocks are parts of the code, and so are the lines between them. -/
theorem Outline.exists_parts (h : Outline code heads) : ∃ parts : List Code,
    parts.flatten = code ∧ (∀ part ∈ parts, Balanced part) ∧ parts.filterMap heading? = heads := by
  induction h with
  | nil => exact ⟨[], rfl, List.forall_mem_nil _, rfl⟩
  | @line text code heads _ ih =>
      obtain ⟨parts, rfl, hparts, rfl⟩ := ih
      refine ⟨Code.line text :: parts, rfl, ?_, rfl⟩
      exact List.forall_mem_cons.2 ⟨balanced_line text, hparts⟩
  | @block first last body code inner heads hinside _ _ ih =>
      obtain ⟨parts, rfl, hparts, rfl⟩ := ih
      refine ⟨Code.block first body last :: parts, ?_, ?_, rfl⟩
      · simp [Code.block]
      · exact List.forall_mem_cons.2 ⟨balanced_block ⟨inner, hinside⟩, hparts⟩

end Parts

end Code

end WireSchema
