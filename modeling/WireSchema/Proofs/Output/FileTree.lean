import WireSchema.Output.FileTree
import WireSchema.Proofs.Outcome

namespace WireSchema

theorem Path.parts_ne_nil (path : String) : Path.parts path ≠ [] := by
  simp [Path.parts, List.splitOnP_ne_nil]

namespace Entry

def content : Entry → Option String
  | file text => some text
  | directory _ => none

def IsLeaf (e : Entry) : Prop :=
  ∀ name, e.child? name = none

theorem isLeaf_file (text : String) : (file text).IsLeaf :=
  fun _ => rfl

theorem isLeaf_empty : (directory []).IsLeaf :=
  fun _ => rfl

theorem find?_cons_of_isLeaf {e : Entry} (h : e.IsLeaf) (name : String) (names : List String) :
    find? (name :: names) e = none := by
  rw [find?, h name]

theorem find?_cons_directory (name : String) (names : List String)
    (entries : List (String × Entry)) :
    find? (name :: names) (directory entries) = (entries.lookup name).bind (find? names) := by
  rw [find?, child?]
  cases entries.lookup name <;> rfl

theorem insert_cons {new e : Entry} {first : String} {names : List String}
    {entries : List (String × Entry)} (hnames : names ≠ []) (h : entries.lookup first = some e) :
    insert new (first :: names) (directory entries) =
      directory (put first (insert new names e) entries) := by
  cases names with
  | nil => exact absurd rfl hnames
  | cons => simp only [insert, h]

variable {new e : Entry} {name : String} {entries : List (String × Entry)}

theorem find?_insert_self {names : List String} (h : find? names e = some (directory entries)) :
    find? (names ++ [name]) (insert new (names ++ [name]) e) = some new := by
  induction names generalizing e with
  | nil =>
    cases h
    simp [insert, find?_cons_directory, lookup_put, find?]
  | cons first names ih =>
    cases e with
    | file text => cases h
    | directory es =>
      rw [find?_cons_directory, Option.bind_eq_some_iff] at h
      obtain ⟨below, hbelow, h⟩ := h
      rw [List.cons_append, insert_cons (by simp) hbelow, find?_cons_directory, lookup_put,
        if_pos rfl, Option.bind_some, ih h]

theorem content_insert {names : List String} (h : find? names e = some (directory entries))
    (hnew : new.IsLeaf) (hold : ∀ old, entries.lookup name = some old → old.IsLeaf)
    (path : List String) : (find? path (insert new (names ++ [name]) e)).map content =
      if path = names ++ [name] then some new.content else (find? path e).map content := by
  induction names generalizing e path with
  | nil =>
    cases h
    cases path with
    | nil => rfl
    | cons other rest =>
      simp only [List.nil_append, insert, find?_cons_directory, lookup_put]
      by_cases hother : other = name
      · subst hother
        cases rest with
        | nil => simp [find?]
        | cons next rest =>
          have hnone : (entries.lookup other).bind (find? (next :: rest)) = none := by
            rw [Option.bind_eq_none_iff]
            exact fun old h => find?_cons_of_isLeaf (hold old h) next rest
          simp [find?_cons_of_isLeaf hnew, hnone]
      · simp [hother]
  | cons first names ih =>
    cases e with
    | file text => cases h
    | directory es =>
      rw [find?_cons_directory, Option.bind_eq_some_iff] at h
      obtain ⟨below, hbelow, h⟩ := h
      rw [List.cons_append, insert_cons (by simp) hbelow]
      cases path with
      | nil => rfl
      | cons other rest =>
        rw [find?_cons_directory, find?_cons_directory, lookup_put]
        by_cases hother : other = first
        · subst hother
          rw [if_pos rfl, hbelow, Option.bind_some, Option.bind_some, ih h]
          simp
        · simp [hother]

end Entry

namespace FileTree

variable {t t' : FileTree} {l : Location} {here : Entry} {entries : List (String × Entry)}

/-- What there is at a location: nothing, a file with its text, or a directory. -/
def content? (t : FileTree) (l : Location) : Option (Option String) :=
  (t.find? l).map Entry.content

def IsDirectory (t : FileTree) (l : Location) : Prop :=
  t.content? l = some none

theorem isDirectory_iff : t.IsDirectory l ↔ ∃ entries, t.find? l = some (.directory entries) := by
  rw [IsDirectory, content?]
  cases t.find? l with
  | none => simp
  | some e => cases e <;> simp [Entry.content]

theorem text?_eq_join (t : FileTree) (l : Location) : t.text? l = (t.content? l).join := by
  rw [text?, content?]
  cases t.find? l with
  | none => rfl
  | some e => cases e <;> rfl

theorem text?_eq_some {text : String} : t.text? l = some text ↔ t.find? l = some (.file text) := by
  rw [text?]
  cases t.find? l with
  | none => simp
  | some e => cases e <;> simp

/-- All that there is in a tree is still there in another, but files may have other texts. -/
structure Extends (t t' : FileTree) : Prop where
  working : t'.working = t.working
  directory : ∀ l, t.IsDirectory l → t'.IsDirectory l
  file : ∀ l text, t.text? l = some text → ∃ text', t'.text? l = some text'

theorem Extends.refl (t : FileTree) : t.Extends t :=
  ⟨rfl, fun _ h => h, fun _ text h => ⟨text, h⟩⟩

theorem Extends.trans {u : FileTree} (h : t.Extends u) (h' : u.Extends t') : t.Extends t' where
  working := h'.working.trans h.working
  directory l hl := h'.directory l (h.directory l hl)
  file l text hl := by
    obtain ⟨text', hl⟩ := h.file l text hl
    exact h'.file l text' hl

section Insert

variable {name : String} {new : Entry}

theorem find?_insert_self (hl : t.find? l = some (.directory entries)) :
    (t.insert (name :: l) new).find? (name :: l) = some new := by
  rw [find?, insert, List.reverse_cons]
  exact Entry.find?_insert_self hl

theorem content?_insert (hl : t.find? l = some (.directory entries)) (hnew : new.IsLeaf)
    (hold : ∀ old, t.find? (name :: l) = some old → old.IsLeaf) (m : Location) :
    (t.insert (name :: l) new).content? m =
      if m = name :: l then some new.content else t.content? m := by
  have hlookup : ∀ old, entries.lookup name = some old → old.IsLeaf := by
    intro old h
    apply hold
    rw [find?_cons, hl]
    exact h
  rw [content?, find?, insert, List.reverse_cons, Entry.content_insert hl hnew hlookup]
  simp only [← List.reverse_cons, List.reverse_inj]
  rfl

theorem text?_insert (hl : t.find? l = some (.directory entries)) (hnew : new.IsLeaf)
    (hold : ∀ old, t.find? (name :: l) = some old → old.IsLeaf) (m : Location) :
    (t.insert (name :: l) new).text? m = if m = name :: l then new.content else t.text? m := by
  rw [text?_eq_join, content?_insert hl hnew hold, text?_eq_join]
  split <;> rfl

theorem extends_insert (hl : t.find? l = some (.directory entries)) (hnew : new.IsLeaf)
    (hold : ∀ old, t.find? (name :: l) = some old → ∃ text text', old = .file text ∧
      new = .file text') : t.Extends (t.insert (name :: l) new) := by
  have hleaf : ∀ old, t.find? (name :: l) = some old → old.IsLeaf := by
    intro old h
    obtain ⟨text, -, rfl, -⟩ := hold old h
    exact Entry.isLeaf_file text
  refine ⟨rfl, fun m hm => ?_, fun m text hm => ?_⟩
  · have hne : m ≠ name :: l := by
      rintro rfl
      obtain ⟨es, hes⟩ := isDirectory_iff.1 hm
      obtain ⟨text, -, htext, -⟩ := hold _ hes
      cases htext
    rw [IsDirectory, content?_insert hl hnew hleaf, if_neg hne]
    exact hm
  · rw [text?_insert hl hnew hleaf]
    split
    · next hm' =>
      subst hm'
      obtain ⟨-, text', -, rfl⟩ := hold _ (text?_eq_some.1 hm)
      exact ⟨text', rfl⟩
    · exact ⟨text, hm⟩

end Insert

theorem isDirectory_or_step (hl : t.find? l = some (.directory entries)) (part : String) :
    t.IsDirectory (l.step part) ∨ l.step part = part :: l := by
  unfold Location.step
  split
  · exact .inl (isDirectory_iff.2 ⟨entries, hl⟩)
  · exact .inl (isDirectory_iff.2 ⟨entries, hl⟩)
  · left
    cases l with
    | nil => exact isDirectory_iff.2 ⟨entries, hl⟩
    | cons name l =>
      rw [find?_cons, Option.bind_eq_some_iff] at hl
      obtain ⟨e, he, hchild⟩ := hl
      cases e with
      | file text => cases hchild
      | directory es => exact isDirectory_iff.2 ⟨es, he⟩
  · exact .inr rfl

section Follow

theorem follow_cons_eq_ok {part : String} {parts : List String} {found : Location × Entry}
    (hl : t.find? l = some here) : t.follow l here (part :: parts) = .ok found ↔
      part.utf8ByteSize ≤ longestName ∧
      ((∃ entries, t.find? (l.step part) = some (.directory entries) ∧
          t.follow (l.step part) (.directory entries) parts = .ok found) ∨
        ∃ text, t.find? (l.step part) = some (.file text) ∧ parts = [] ∧
          found = (l.step part, .file text)) := by
  rw [follow, entryFrom?_eq_find?_step t hl]
  by_cases hlong : longestName < part.utf8ByteSize
  · simp [hlong, Nat.not_le.2 hlong]
  · rw [if_neg hlong]
    simp only [Nat.not_lt.1 hlong, true_and]
    cases t.find? (l.step part) with
    | none => simp
    | some e =>
      cases e with
      | directory entries => simp
      | file text => cases parts <;> simp [eq_comm]

theorem find?_of_follow {parts : List String} {m : Location} {e : Entry}
    (hl : t.find? l = some here) (h : t.follow l here parts = .ok (m, e)) :
    m = parts.foldl Location.step l ∧ t.find? m = some e := by
  induction parts generalizing l here with
  | nil =>
    cases h
    exact ⟨rfl, hl⟩
  | cons part parts ih =>
    obtain ⟨-, ⟨entries, hnext, hrest⟩ | ⟨text, hnext, rfl, hfound⟩⟩ := (follow_cons_eq_ok hl).1 h
    · exact ih hnext hrest
    · cases hfound
      exact ⟨rfl, hnext⟩

theorem follow_append {parts more : List String} {m : Location} {found : Location × Entry}
    (hl : t.find? l = some here) (h : t.follow l here parts = .ok (m, .directory entries))
    (hmore : t.follow m (.directory entries) more = .ok found) :
    t.follow l here (parts ++ more) = .ok found := by
  induction parts generalizing l here with
  | nil =>
    cases h
    exact hmore
  | cons part parts ih =>
    obtain ⟨hshort, ⟨es, hnext, hrest⟩ | ⟨text, -, -, hfound⟩⟩ := (follow_cons_eq_ok hl).1 h
    · exact (follow_cons_eq_ok hl).2 ⟨hshort, .inl ⟨es, hnext, ih hnext hrest⟩⟩
    · cases hfound

theorem Extends.follow (hext : t.Extends t') {here' : Entry} {parts : List String} {m : Location}
    {e : Entry} (hl : t.find? l = some here) (hl' : t'.find? l = some here')
    (h : t.follow l here parts = .ok (m, e)) : ∃ e', t'.follow l here' parts = .ok (m, e') := by
  induction parts generalizing l here here' with
  | nil =>
    cases h
    exact ⟨here', rfl⟩
  | cons part parts ih =>
    obtain ⟨hshort, ⟨es, hnext, hrest⟩ | ⟨text, hnext, rfl, hfound⟩⟩ :=
      (follow_cons_eq_ok hl).1 h
    · obtain ⟨es', hnext'⟩ := isDirectory_iff.1 (hext.directory _ (isDirectory_iff.2 ⟨es, hnext⟩))
      obtain ⟨e', h'⟩ := ih hnext hnext' hrest
      exact ⟨e', (follow_cons_eq_ok hl').2 ⟨hshort, .inl ⟨es', hnext', h'⟩⟩⟩
    · cases hfound
      obtain ⟨text', hnext'⟩ := hext.file _ text (text?_eq_some.2 hnext)
      exact ⟨.file text', (follow_cons_eq_ok hl').2
        ⟨hshort, .inr ⟨text', text?_eq_some.1 hnext', rfl, rfl⟩⟩⟩

end Follow

section Paths

variable {path : String} {parts : List String} {m : Location} {e : Entry}

theorem start_eq_ok : t.start path = .ok (l, here) ↔
    '\x00' ∉ path.toList ∧ path.utf8ByteSize ≤ longestPath ∧ l = t.origin path ∧
      t.find? l = some here ∧ ∃ entries, here = .directory entries := by
  unfold start
  by_cases hnul : '\x00' ∈ path.toList
  · simp [hnul]
  · by_cases hlong : longestPath < path.utf8ByteSize
    · simp [hnul, hlong, Nat.not_le.2 hlong]
    · rw [if_neg (by simpa using hnul), if_neg hlong]
      simp only [hnul, not_false_eq_true, Nat.not_lt.1 hlong, true_and]
      constructor
      · intro h
        split at h
        · cases h
        · cases h
        · next entries hfind =>
          cases h
          exact ⟨rfl, hfind, entries, rfl⟩
      · rintro ⟨rfl, hfind, entries, rfl⟩
        rw [hfind]

theorem locate_eq_ok : t.locate path parts = .ok (m, e) ↔ ∃ entries,
    t.start path = .ok (t.origin path, .directory entries) ∧
      t.follow (t.origin path) (.directory entries) parts = .ok (m, e) := by
  rw [locate]
  constructor
  · intro h
    obtain ⟨⟨l, here⟩, hstart, h⟩ := Outcome.bind_eq_ok.1 h
    obtain ⟨-, -, rfl, -, entries, rfl⟩ := start_eq_ok.1 hstart
    exact ⟨entries, hstart, h⟩
  · rintro ⟨entries, hstart, h⟩
    exact Outcome.bind_eq_ok.2 ⟨_, hstart, h⟩

theorem find?_of_locate (h : t.locate path parts = .ok (m, e)) :
    m = parts.foldl Location.step (t.origin path) ∧ t.find? m = some e := by
  obtain ⟨entries, hstart, h⟩ := locate_eq_ok.1 h
  obtain ⟨-, -, -, horigin, -⟩ := start_eq_ok.1 hstart
  exact find?_of_follow horigin h

theorem Extends.origin (hext : t.Extends t') (path : String) : t'.origin path = t.origin path := by
  rw [FileTree.origin, FileTree.origin, hext.working]

theorem Extends.locate (hext : t.Extends t') (h : t.locate path parts = .ok (m, e)) :
    ∃ e', t'.locate path parts = .ok (m, e') := by
  obtain ⟨entries, hstart, h⟩ := locate_eq_ok.1 h
  obtain ⟨hnul, hshort, -, horigin, -⟩ := start_eq_ok.1 hstart
  obtain ⟨entries', horigin'⟩ :=
    isDirectory_iff.1 (hext.directory _ (isDirectory_iff.2 ⟨entries, horigin⟩))
  obtain ⟨e', h'⟩ := hext.follow horigin horigin' h
  rw [← hext.origin] at h' horigin'
  exact ⟨e', locate_eq_ok.2
    ⟨entries', start_eq_ok.2 ⟨hnul, hshort, rfl, horigin', entries', rfl⟩, h'⟩⟩

/-- A path leads to a file or a directory at a location. -/
def Resolves (t : FileTree) (path : String) (l : Location) : Prop :=
  ∃ e, t.locate path (Path.parts path) = .ok (l, e)

theorem Resolves.eq (h : t.Resolves path l) (h' : t.Resolves path m) : l = m := by
  obtain ⟨e, he⟩ := h
  obtain ⟨e', he'⟩ := h'
  rw [he] at he'
  cases he'
  rfl

theorem Extends.resolves (hext : t.Extends t') (h : t.Resolves path l) : t'.Resolves path l :=
  h.elim fun _ h => hext.locate h

end Paths

section Making

theorem makeFrom_spec (hl : t.find? l = some (.directory entries)) (blocked : FileProblem)
    (parts : List String) : t.Extends (t.makeFrom blocked l (.directory entries) parts).1 ∧
      ∀ m, (t.makeFrom blocked l (.directory entries) parts).1.text? m = t.text? m := by
  induction parts generalizing t blocked l entries with
  | nil => exact ⟨.refl t, fun _ => rfl⟩
  | cons part parts ih =>
    rw [makeFrom, entryFrom?_eq_find?_step t hl]
    split
    · exact ⟨.refl t, fun _ => rfl⟩
    cases hnext : t.find? (l.step part) with
    | none =>
      -- Only a name can lead to where nothing is, so the new directory is in the present one.
      have hstep : l.step part = part :: l := by
        refine (isDirectory_or_step hl part).resolve_left fun h => ?_
        obtain ⟨es, hes⟩ := isDirectory_iff.1 h
        rw [hnext] at hes
        cases hes
      rw [hstep] at hnext ⊢
      have hnone (old : Entry) (h : t.find? (part :: l) = some old) : False := by
        rw [hnext] at h
        cases h
      obtain ⟨hext, htext⟩ := ih (find?_insert_self hl) .fileExists
      refine ⟨.trans (extends_insert hl Entry.isLeaf_empty fun old h => (hnone old h).elim) hext,
        fun m => ?_⟩
      rw [htext, text?_insert hl Entry.isLeaf_empty fun old h => (hnone old h).elim]
      split
      · next hm => rw [hm, text?, hnext]; rfl
      · rfl
    | some e =>
      cases e with
      | file text => exact ⟨.refl t, fun _ => rfl⟩
      | directory es => exact ih hnext blocked

/-- Directories that are made, also those made before a problem is met, change no file. -/
theorem makeDirectories_spec (t : FileTree) (path : String) :
    t.Extends (t.makeDirectories path).1 ∧
      ∀ m, (t.makeDirectories path).1.text? m = t.text? m := by
  rw [makeDirectories]
  split
  · exact ⟨.refl t, fun _ => rfl⟩
  cases hstart : t.start path with
  | error problem => exact ⟨.refl t, fun _ => rfl⟩
  | ok found =>
    obtain ⟨l, here⟩ := found
    obtain ⟨-, -, -, hl, entries, rfl⟩ := start_eq_ok.1 hstart
    exact makeFrom_spec hl _ _

end Making

section Writing

variable {path text : String}

theorem writeFile_eq_ok (h : t.writeFile path text = .ok t') : ∃ l entries name,
    Path.parts path = (Path.parts path).dropLast ++ [name] ∧
    t.locate path (Path.parts path).dropLast = .ok (l, .directory entries) ∧
    name.utf8ByteSize ≤ longestName ∧ l.step name = name :: l ∧
    (∀ old, t.find? (name :: l) = some old → ∃ text, old = .file text) ∧
    t' = t.insert (name :: l) (.file text) := by
  have hname : (Path.parts path).getLast?.getD "" =
      (Path.parts path).getLast (Path.parts_ne_nil path) := by
    rw [List.getLast?_eq_getLast_of_ne_nil (Path.parts_ne_nil path), Option.getD_some]
  rw [writeFile, hname] at h
  have hparts := (List.dropLast_concat_getLast (Path.parts_ne_nil path)).symm
  generalize (Path.parts path).getLast (Path.parts_ne_nil path) = name at h hparts
  split at h
  · cases h
  · cases h
  · next l here hfile hlocate =>
    obtain ⟨entries, rfl⟩ : ∃ entries, here = .directory entries := by
      cases here with
      | file text => exact (hfile text rfl).elim
      | directory entries => exact ⟨entries, rfl⟩
    have hl := (find?_of_locate hlocate).2
    rw [entryFrom?_eq_find?_step t hl] at h
    split at h
    · cases h
    · next hshort =>
      split at h
      · cases h
      · next hdirectory =>
        have hnot : ¬ t.IsDirectory (l.step name) := by
          rintro hstep
          obtain ⟨es, hes⟩ := isDirectory_iff.1 hstep
          exact hdirectory es hes
        have hstep := (isDirectory_or_step hl name).resolve_left hnot
        cases h
        rw [hstep] at hdirectory ⊢
        refine ⟨l, entries, name, hparts, hlocate, Nat.not_lt.1 hshort, hstep, ?_, rfl⟩
        intro old hold
        cases old with
        | file text => exact ⟨text, rfl⟩
        | directory es => exact (hdirectory es hold).elim

theorem writeFile_spec (h : t.writeFile path text = .ok t') : t.Extends t' ∧
    ∃ l, t'.Resolves path l ∧ ∀ m, t'.text? m = if m = l then some text else t.text? m := by
  obtain ⟨l, entries, name, hparts, hlocate, hshort, hstep, hold, rfl⟩ := writeFile_eq_ok h
  have hl := (find?_of_locate hlocate).2
  have hext : t.Extends (t.insert (name :: l) (.file text)) := by
    refine extends_insert hl (Entry.isLeaf_file text) fun old h => ?_
    obtain ⟨before, rfl⟩ := hold old h
    exact ⟨before, text, rfl, rfl⟩
  refine ⟨hext, name :: l, ⟨.file text, ?_⟩, fun m => ?_⟩
  · obtain ⟨e, hlocate'⟩ := hext.locate hlocate
    obtain ⟨-, he⟩ := find?_of_locate hlocate'
    obtain ⟨entries', hl'⟩ := isDirectory_iff.1 (hext.directory l (isDirectory_iff.2 ⟨entries, hl⟩))
    rw [hl'] at he
    cases he
    obtain ⟨es, hstart, hfollow⟩ := locate_eq_ok.1 hlocate'
    obtain ⟨-, -, -, horigin, -⟩ := start_eq_ok.1 hstart
    rw [hparts]
    refine locate_eq_ok.2 ⟨es, hstart, follow_append horigin hfollow ?_⟩
    refine (follow_cons_eq_ok hl').2 ⟨hshort, .inr ⟨text, ?_, rfl, ?_⟩⟩
    · rw [hstep]
      exact find?_insert_self hl
    · rw [hstep]
  · refine text?_insert hl (Entry.isLeaf_file text) (fun old h => ?_) m
    obtain ⟨before, rfl⟩ := hold old h
    exact Entry.isLeaf_file before

end Writing

end FileTree

end WireSchema
