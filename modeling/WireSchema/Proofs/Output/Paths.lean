import WireSchema.Emit.Backend
import WireSchema.Proofs.Emit.Naming
import WireSchema.Proofs.Output.FileTree

namespace WireSchema

namespace Path

/-- A path that does not lead out of the directory that it starts from. -/
def IsConfined (path : String) : Prop :=
  isAbsolute path = false ∧ ".." ∉ parts path

def IsStem (s : String) : Prop :=
  isAbsolute s = false ∧ ".." ∉ (parts s).dropLast

def lead (base : String) : String :=
  if base.isEmpty || base.toList.getLast? = some separator then base else base ++ "/"

theorem isAbsolute_iff {p : String} : isAbsolute p = true ↔ p.toList.head? = some separator := by
  rw [isAbsolute, decide_eq_true_eq]

section Join

variable {base p q s : String}

theorem join_of_isAbsolute (hq : isAbsolute q = true) : join base q = q :=
  if_pos (isAbsolute_iff.1 hq)

theorem join_of_relative (hq : isAbsolute q = false) : join base q = lead base ++ q := by
  have hhead : q.toList.head? ≠ some separator := fun h => by simp [isAbsolute_iff.2 h] at hq
  rw [join, if_neg hhead, lead]
  split <;> rfl

theorem join_empty (q : String) : join "" q = q := by
  cases hq : isAbsolute q with
  | true => exact join_of_isAbsolute hq
  | false => simp [join_of_relative hq, lead]

theorem lead_of_getLast? (h : s.toList.getLast? = some separator) : lead s = s := by
  simp [lead, h]

theorem lead_of_ne (hs : s ≠ "") (h : s.toList.getLast? ≠ some separator) : lead s = s ++ "/" := by
  simp [lead, hs, h]

theorem getLast?_lead (hs : s ≠ "") : (lead s).toList.getLast? = some separator := by
  by_cases h : s.toList.getLast? = some separator
  · rwa [lead_of_getLast? h]
  · simp [lead_of_ne hs h, separator]

theorem lead_lead_append (a b : String) : lead (lead a ++ b) = lead a ++ lead b := by
  by_cases hb : b = ""
  · subst hb
    rw [String.append_empty]
    by_cases ha : a = ""
    · subst ha
      rfl
    · rw [lead_of_getLast? (getLast?_lead ha)]
      exact String.append_empty.symm
  · have hlast : (lead a ++ b).toList.getLast? = b.toList.getLast? := by
      rw [String.toList_append, List.getLast?_append_of_ne_nil _ (by simpa using hb)]
    by_cases h : b.toList.getLast? = some separator
    · rw [lead_of_getLast? (hlast.trans h), lead_of_getLast? h]
    · rw [lead_of_ne (by simp [hb]) (by rwa [hlast]), lead_of_ne hb h, String.append_assoc]

theorem parts_lead_append (base q : String) : ∃ front, parts (lead base ++ q) = front ++ parts q ∧
    (parts base = front ∨ parts base = front ++ [""]) := by
  by_cases hempty : base = ""
  · subst hempty
    exact ⟨[], by simp [lead], .inr rfl⟩
  · by_cases hlast : base.toList.getLast? = some separator
    · obtain ⟨cs, hcs⟩ := List.getLast?_eq_some_iff.1 hlast
      refine ⟨(cs.splitOnP (· == separator)).map String.ofList, ?_, .inr ?_⟩
      · simp [lead_of_getLast? hlast, parts, hcs, List.splitOnP_append_cons]
      · simp [parts, hcs, List.splitOnP_append_cons]
    · have hsplit := List.splitOnP_append_cons (p := (· == separator)) base.toList q.toList
        (rfl : ('/' == separator) = true)
      exact ⟨parts base, by simp [lead_of_ne hempty hlast, parts, hsplit], .inl rfl⟩

theorem isAbsolute_join (hq : isAbsolute q = false) :
    isAbsolute (join base q) = isAbsolute base := by
  by_cases hempty : base = ""
  · rw [hempty, join_empty, hq]
    rfl
  · have hhead : (lead base ++ q).toList.head? = base.toList.head? := by
      obtain ⟨c, cs, hcs⟩ := List.exists_cons_of_ne_nil (mt String.toList_eq_nil_iff.1 hempty)
      by_cases hlast : base.toList.getLast? = some separator
      · simp [lead_of_getLast? hlast, hcs]
      · simp [lead_of_ne hempty hlast, hcs]
    rw [join_of_relative hq, isAbsolute, isAbsolute, hhead]

theorem isConfined_join : IsConfined (join base q) ↔ IsConfined base ∧ IsConfined q := by
  cases hq : isAbsolute q with
  | true => simp [IsConfined, join_of_isAbsolute hq, hq]
  | false =>
      obtain ⟨front, hjoin, hbase⟩ := parts_lead_append base q
      have hmem : ".." ∈ parts base ↔ ".." ∈ front := by
        rcases hbase with h | h <;> simp [h]
      rw [IsConfined, isAbsolute_join hq, join_of_relative hq, hjoin]
      simp [IsConfined, hq, hmem, and_assoc]

theorem join_assoc (a b q : String) : join (join a b) q = join a (join b q) := by
  cases hq : isAbsolute q with
  | true => simp only [join_of_isAbsolute hq]
  | false =>
      cases hb : isAbsolute b with
      | true =>
          have hbq : isAbsolute (join b q) = true := by rw [isAbsolute_join hq, hb]
          rw [join_of_isAbsolute hb, join_of_isAbsolute hbq]
      | false =>
          have hbq : isAbsolute (join b q) = false := by rw [isAbsolute_join hq, hb]
          rw [join_of_relative hbq, join_of_relative hq, join_of_relative hq, join_of_relative hb,
            lead_lead_append, String.append_assoc]

end Join

section Stem

variable {s s' ext : String}

theorem parts_append (s : String) (hext : separator ∉ ext.toList) : ∃ front last,
    parts s = front ++ [last] ∧ parts (s ++ ext) = front ++ [last ++ ext] := by
  have hchars (cs es : List Char) (hes : separator ∉ es) : ∃ front last,
      cs.splitOnP (· == separator) = front ++ [last] ∧
        (cs ++ es).splitOnP (· == separator) = front ++ [last ++ es] := by
    induction cs with
    | nil =>
        refine ⟨[], [], rfl, List.splitOnP_eq_singleton fun c hc => ?_⟩
        exact beq_eq_false_iff_ne.2 fun heq => hes (heq ▸ hc)
    | cons c cs ih =>
        obtain ⟨front, last, hcs, happend⟩ := ih
        rw [List.cons_append, List.splitOnP_cons_eq_if_modifyHead, List.splitOnP_cons_eq_if_modifyHead,
          hcs, happend]
        by_cases hc : c = separator
        · exact ⟨[] :: front, last, by simp [hc], by simp [hc]⟩
        · cases front with
          | nil => exact ⟨[], c :: last, by simp [hc], by simp [hc]⟩
          | cons part front => exact ⟨(c :: part) :: front, last, by simp [hc], by simp [hc]⟩
  obtain ⟨front, last, hs, happend⟩ := hchars s.toList ext.toList hext
  refine ⟨front.map String.ofList, String.ofList last, by simp [parts, hs], ?_⟩
  simp [parts, happend]

theorem isAbsolute_append (hext : separator ∉ ext.toList) :
    isAbsolute (s ++ ext) = isAbsolute s := by
  cases hs : s.toList with
  | nil =>
      have hhead : ext.toList.head? ≠ some separator := fun h => hext (List.mem_of_mem_head? h)
      simp [isAbsolute, hs, hhead]
  | cons c cs => simp [isAbsolute, hs]

theorem append_ne (hlong : 2 < ext.length) (last : String) {part : String} (hpart : part.length ≤ 2) :
    last ++ ext ≠ part := by
  rintro rfl
  rw [String.length_append] at hpart
  omega

theorem isConfined_append (hext : separator ∉ ext.toList) (hlong : 2 < ext.length) :
    IsConfined (s ++ ext) ↔ IsStem s := by
  obtain ⟨front, last, hs, happend⟩ := parts_append s hext
  have hlast : ".." ≠ last ++ ext := (append_ne hlong last (by decide)).symm
  simp [IsConfined, IsStem, isAbsolute_append hext, hs, happend, hlast]

theorem forall₂_splitOnP {xs ys : List Char} (h : Text.Respelled xs ys) :
    List.Forall₂ Text.Respelled (xs.splitOnP (· == separator)) (ys.splitOnP (· == separator)) := by
  induction h with
  | nil => exact .cons .nil .nil
  | @cons c cs xs ys hc _ ih =>
      have hmark : Text.IsMark separator := .inl rfl
      by_cases hslash : c = separator
      · subst hslash
        rw [(Text.respells_mark hmark).1 hc]
        simpa [List.splitOnP_cons_eq_if_modifyHead] using List.Forall₂.cons .nil ih
      · have hcs : separator ∉ cs := by
          intro hmem
          have hfirst := (Text.Respelled.cons hc .nil).mem_iff hmark
          simp [hmem, Ne.symm hslash] at hfirst
        have hparts : ∀ d ∈ cs, (d == separator) = false := by
          intro d hd
          rw [beq_eq_false_iff_ne]
          rintro rfl
          exact hcs hd
        rw [Naming.splitOnP_append hparts, List.splitOnP_cons_eq_if_modifyHead,
          if_neg (by simpa using hslash)]
        generalize xs.splitOnP (· == separator) = before, ys.splitOnP (· == separator) = after at ih
        cases ih with
        | nil => exact .nil
        | cons hpart hparts => exact .cons (.cons hc hpart) hparts

theorem dots_mem_map_ofList {parts : List (List Char)} :
    ".." ∈ parts.map String.ofList ↔ ['.', '.'] ∈ parts := by
  rw [List.mem_map]
  constructor
  · rintro ⟨part, hpart, heq⟩
    obtain rfl : part = ['.', '.'] := by simpa [← String.toList_inj] using heq
    exact hpart
  · exact fun h => ⟨_, h, rfl⟩

theorem isStem_of_respelled (h : Text.Respelled s.toList s'.toList) : IsStem s' ↔ IsStem s := by
  have habsolute : isAbsolute s' = isAbsolute s := by
    rw [Bool.eq_iff_iff, isAbsolute_iff, isAbsolute_iff]
    exact h.head?_iff (.inl rfl)
  have hdots {part part' : List Char} (hpart : Text.Respelled part part') :
      part' = ['.', '.'] ↔ part = ['.', '.'] :=
    hpart.eq_iff (by simp [Text.IsMark])
  have hparts := forall₂_splitOnP h
  rw [IsStem, IsStem, habsolute, parts, parts, ← List.map_dropLast, ← List.map_dropLast,
    dots_mem_map_ofList, dots_mem_map_ofList, List.dropLast_eq_take, List.dropLast_eq_take,
    ← hparts.length_eq]
  have hfront := List.forall₂_take ((s.toList.splitOnP (· == separator)).length - 1) hparts
  refine and_congr_right fun _ => not_congr ⟨fun hmem => ?_, fun hmem => ?_⟩
  · obtain ⟨part, hpart, hrel⟩ := Outcome.exists_left_of_mem hfront hmem
    exact (hdots hrel).1 rfl ▸ hpart
  · obtain ⟨part, hpart, hrel⟩ := Outcome.exists_right_of_mem hfront hmem
    exact (hdots hrel).2 rfl ▸ hpart

end Stem

structure IsName (f : String) : Prop where
  plain : separator ∉ f.toList
  ne_empty : f ≠ ""
  ne_dot : f ≠ "."
  ne_dots : f ≠ ".."

theorem IsName.isAbsolute {f : String} (h : IsName f) : isAbsolute f = false := by
  rw [Bool.eq_false_iff, Ne, isAbsolute_iff]
  exact fun hhead => h.plain (List.mem_of_mem_head? hhead)

theorem IsName.parts {f : String} (h : IsName f) : parts f = [f] := by
  have hsplit : f.toList.splitOnP (· == separator) = [f.toList] := by
    refine List.splitOnP_eq_singleton fun c hc => ?_
    exact beq_eq_false_iff_ne.2 fun heq => h.plain (heq ▸ hc)
  rw [Path.parts, hsplit, List.map_singleton, String.ofList_toList]

section Components

variable {path base f : String}

theorem intercalate_parts (path : String) :
    [separator].intercalate ((parts path).map String.toList) = path.toList := by
  have hparts : (parts path).map String.toList = path.toList.splitOn separator := by
    simp [parts, List.splitOn, Function.comp_def]
  rw [hparts, List.intercalate_splitOn]

theorem eq_of_parts_eq_singleton (h : parts path = [f]) : path = f := by
  apply String.toList_inj.1
  rw [← intercalate_parts path, h]
  simp

/-- Only a slash at the start of a path gives an empty part with others behind it there. -/
theorem isAbsolute_of_parts {rest : List String} (hrest : rest ≠ []) (h : parts path = "" :: rest) :
    isAbsolute path = true := by
  obtain ⟨part, rest, rfl⟩ := List.exists_cons_of_ne_nil hrest
  rw [isAbsolute_iff, ← intercalate_parts path, h]
  simp [List.intercalate]

theorem components_join (hf : IsName f) : components (join base f) = components base ++ [f] := by
  obtain ⟨front, hjoin, hbase⟩ := parts_lead_append base f
  rw [hf.parts] at hjoin
  have hnames : (parts (join base f)).filter (fun part => part != "" && part != ".") =
      (parts base).filter (fun part => part != "" && part != ".") ++ [f] := by
    rw [join_of_relative hf.isAbsolute, hjoin]
    rcases hbase with h | h <;> simp [h, hf.ne_empty, hf.ne_dot]
  have hhead : (parts (join base f)).head? = some "." ↔ (parts base).head? = some "." := by
    rw [join_of_relative hf.isAbsolute, hjoin]
    cases front with
    | nil => rcases hbase with h | h <;> simp [h, hf.ne_dot]
    | cons part front => rcases hbase with h | h <;> simp [h]
  rw [components, components, hnames, isAbsolute_join hf.isAbsolute]
  simp only [hhead]
  split
  · rfl
  · split <;> rfl

theorem eq_of_components_singleton {front : List String} {last : String}
    (hparts : parts path = front ++ [last]) (h : components path = [f]) (hempty : last ≠ "")
    (hdot : last ≠ ".") : last = f := by
  rw [components] at h
  split at h
  · simp [hparts, hempty, hdot] at h
  · split at h
    · simp [hparts, hempty, hdot] at h
    · have hlast := congrArg List.getLast? h
      simpa [hparts, hempty, hdot] using hlast

theorem eq_of_components {front : List String} (hf : IsName f) (hparts : parts path = front ++ [f])
    (h : components path = [f]) : path = f := by
  cases front with
  | nil => exact eq_of_parts_eq_singleton hparts
  | cons part front =>
      rw [components] at h
      split at h
      · exact absurd (List.cons.inj h).1.symm fun heq => hf.plain (by simp [heq, separator])
      next habsolute =>
        split at h
        · exact absurd (List.cons.inj h).1.symm hf.ne_dot
        next hdot =>
          have hpart : part = "" := by
            by_contra hne
            simp only [hparts, List.cons_append, List.head?_cons, Option.some.injEq] at hdot
            simp [hparts, hne, hdot, hf.ne_empty, hf.ne_dot] at h
          subst hpart
          exact absurd (isAbsolute_of_parts (by simp) hparts) habsolute

end Components

section Words

theorem not_of_mem_splitOnP {α : Type} {f : α → Bool} {xs part : List α} {x : α}
    (hpart : part ∈ xs.splitOnP f) (hx : x ∈ part) : x ∈ xs ∧ f x = false := by
  have hmem : x ∈ xs.filter (!f ·) := by
    rw [← Naming.flatten_splitOnP]
    exact List.mem_flatten_of_mem hpart hx
  simpa using hmem

theorem dots_notMem_parts {s : String} (h : '.' ∉ s.toList) : ".." ∉ parts s := by
  intro hmem
  rw [parts, dots_mem_map_ofList] at hmem
  exact h (not_of_mem_splitOnP hmem List.mem_cons_self).1

theorem dot_notMem_of_mem_wordsBy {s word : String} (h : word ∈ Text.wordsBy (· == '.') s) :
    '.' ∉ word.toList := by
  obtain ⟨part, hpart, rfl⟩ := List.mem_map.1 h
  rw [String.toList_ofList]
  intro hmem
  have hne := (not_of_mem_splitOnP (List.mem_filter.1 hpart).1 hmem).2
  simp at hne

theorem isConfined_foldl_join (words : List String) (base : String) :
    IsConfined (words.foldl join base) ↔ IsConfined base ∧ ∀ word ∈ words, IsConfined word := by
  induction words generalizing base with
  | nil => simp
  | cons word words ih => rw [List.foldl_cons, ih, isConfined_join, List.forall_mem_cons, and_assoc]

end Words

end Path

namespace Location

theorem step_of_ne {part : String} (hempty : part ≠ "") (hdot : part ≠ ".") (hdots : part ≠ "..")
    (l : Location) : l.step part = part :: l := by
  unfold step
  split
  · exact absurd rfl hempty
  · exact absurd rfl hdot
  · exact absurd rfl hdots
  · rfl

theorem foldl_step {parts : List String} (h : ".." ∉ parts) (l : Location) :
    parts.foldl step l = (parts.filter fun part => part ≠ "" ∧ part ≠ ".").reverse ++ l := by
  induction parts generalizing l with
  | nil => rfl
  | cons part parts ih =>
      obtain ⟨hdots, h⟩ := not_or.1 (mt List.mem_cons.2 h)
      rw [List.foldl_cons, ih h]
      by_cases hempty : part = ""
      · simp [hempty, step]
      · by_cases hdot : part = "."
        · simp [hdot, step]
        · simp [step_of_ne hempty hdot (Ne.symm hdots), hempty, hdot]

end Location

namespace FileTree

variable {t t' : FileTree} {base q path : String} {l : Location}

/-- The location that a path leads to, whether or not there is something. -/
def place (t : FileTree) (path : String) : Location :=
  (Path.parts path).foldl Location.step (t.origin path)

theorem Resolves.eq_place (h : t.Resolves path l) : l = t.place path :=
  h.elim fun _ h => (find?_of_locate h).1

theorem Extends.place (h : t.Extends t') (path : String) : t'.place path = t.place path := by
  rw [FileTree.place, FileTree.place, h.origin]

theorem place_join (hq : Path.isAbsolute q = false) (t : FileTree) (base : String) :
    t.place (Path.join base q) = (Path.parts q).foldl Location.step (t.place base) := by
  obtain ⟨front, hjoin, hbase⟩ := Path.parts_lead_append base q
  have horigin : t.origin (Path.join base q) = t.origin base := by
    rw [origin, origin, Path.isAbsolute_join hq]
  rw [place, horigin, Path.join_of_relative hq, hjoin, List.foldl_append, place]
  rcases hbase with h | h
  · rw [h]
  · rw [h, List.foldl_append]
    rfl

end FileTree

namespace Language

def packageWords (settings : Settings) : Language → List String
  | rust => []
  | java => Text.wordsBy (· == '.') (Java.packageName settings)

def directory (b : Language) (settings : Settings) : String :=
  (b.packageWords settings).foldl Path.join ""

def fileName (className : String) : Language → String
  | rust => Rust.moduleName className ++ ".rs"
  | java => Java.className className ++ ".java"

/-- What is left of a name in a file name, apart from case and underscores. -/
def spelled (className : String) : Language → String
  | rust => className
  | java => Naming.compact className

variable {b : Language} {settings : Settings} {className : String}

theorem path_eq (b : Language) (settings : Settings) (className : String) :
    b.backend.path className settings =
      Path.join (b.directory settings) (b.fileName className) := by
  cases b with
  | rust => exact (Path.join_empty _).symm
  | java => rfl

theorem fileName_eq (b : Language) (className : String) : ∃ stem ext,
    b.fileName className = stem ++ ext ∧ Path.separator ∉ ext.toList ∧ 2 < ext.length ∧
      Text.Respelled (b.spelled className).toList stem.toList := by
  cases b with
  | java => exact ⟨_, _, rfl, by decide, by decide, Naming.respelled_pascal className⟩
  | rust =>
      simp only [fileName, Rust.moduleName, Rust.escape]
      split
      · exact ⟨Naming.snake className, "_.rs", by simp [String.append_assoc], by decide, by decide,
          Naming.respelled_snake className⟩
      · exact ⟨_, _, rfl, by decide, by decide, Naming.respelled_snake className⟩

theorem isName_fileName (b : Language) (h : Path.separator ∉ className.toList) :
    Path.IsName (b.fileName className) := by
  obtain ⟨stem, ext, hname, hext, hlong, hrespelled⟩ := b.fileName_eq className
  have hspelled : Path.separator ∉ (b.spelled className).toList := by
    cases b with
    | rust => exact h
    | java =>
        rw [spelled, Naming.compact, String.toList_ofList]
        exact mt (fun hmem => (List.mem_filter.1 hmem).1) h
  have hstem : Path.separator ∉ stem.toList := mt (hrespelled.mem_iff (.inl rfl)).1 hspelled
  rw [hname]
  refine ⟨?_, Path.append_ne hlong stem (by decide), Path.append_ne hlong stem (by decide),
    Path.append_ne hlong stem (by decide)⟩
  rw [String.toList_append, List.mem_append, not_or]
  exact ⟨hstem, hext⟩

theorem isConfined_directory : Path.IsConfined (b.directory settings) ↔
    ∀ word ∈ b.packageWords settings, Path.isAbsolute word = false := by
  have hempty : Path.IsConfined "" := ⟨rfl, by decide⟩
  rw [directory, Path.isConfined_foldl_join, and_iff_right hempty]
  refine forall₂_congr fun word hword => and_iff_left (Path.dots_notMem_parts ?_)
  cases b with
  | rust => cases hword
  | java => exact Path.dot_notMem_of_mem_wordsBy hword

end Language

end WireSchema
