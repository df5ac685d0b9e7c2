import WireSchema.Schema.Class
import WireSchema.Schema.Settings

namespace WireSchema

structure Registry where
  classes : List ClassDef
  nodup : (classes.map ClassDef.name).Nodup
  deriving DecidableEq

namespace Registry

def empty : Registry := ⟨[], by simp⟩

def names (r : Registry) : List String :=
  r.classes.map ClassDef.name

def find? (r : Registry) (name : String) : Option ClassDef :=
  r.classes.find? (·.name == name)

def contains (r : Registry) (name : String) : Bool :=
  r.classes.any (·.name == name)

def insert? (r : Registry) (c : ClassDef) : Option Registry :=
  if h : c.name ∈ r.classes.map ClassDef.name then none
  else some ⟨r.classes ++ [c], by
    simp only [List.map_append, List.map_cons, List.map_nil]
    exact List.nodup_append.2 ⟨r.nodup, by simp, by
      intro a ha b hb
      simp only [List.mem_singleton] at hb
      subst hb
      rintro rfl
      exact h ha⟩⟩

def parentOf? (r : Registry) (c : ClassDef) : Option ClassDef :=
  c.parent?.bind r.find?

theorem contains_of_find? {r : Registry} {name : String} {c : ClassDef} (h : r.find? name = some c) :
    r.contains c.name = true :=
  List.any_eq_true.2 ⟨c, List.mem_of_find?_eq_some h, beq_self_eq_true c.name⟩

/-- How far a walk upward can go on, given the names that it has passed and the class that comes
next. A step passes one more of the declared classes, unless it starts at a class that is not
declared itself. -/
def stepsAhead (r : Registry) (passed : List String) (next : Option ClassDef) : Nat :=
  (r.classes.filter fun c => !passed.contains c.name).length +
    if next.all fun c => r.contains c.name then 0 else 1

theorem stepsAhead_lt (r : Registry) {passed passed' : List String} {c : ClassDef}
    (hnew : c.name ∉ passed) (hname : c.name ∈ passed') (hpassed : ∀ name ∈ passed, name ∈ passed') :
    r.stepsAhead passed' (r.parentOf? c) < r.stepsAhead passed (some c) := by
  have hparent : (r.parentOf? c).all (fun d => r.contains d.name) = true := by
    rw [parentOf?]
    cases c.parent? with
    | none => rfl
    | some p =>
      cases hd : r.find? p with
      | none => simp [hd]
      | some d => simpa [hd] using contains_of_find? hd
  have hfilter : (r.classes.filter fun d => !passed'.contains d.name) =
      (r.classes.filter fun d => !passed.contains d.name).filter
        fun d => !passed'.contains d.name := by
    rw [List.filter_filter]
    apply List.filter_congr
    intro d _
    by_cases hd : d.name ∈ passed
    · simp [hd, hpassed d.name hd]
    · simp [hd]
  rw [stepsAhead, stepsAhead, if_pos hparent, hfilter]
  by_cases hc : r.contains c.name
  · obtain ⟨d, hd, hsame⟩ := List.any_eq_true.1 hc
    have hsame : d.name = c.name := by simpa using hsame
    rw [if_pos (by simpa using hc)]
    refine List.length_filter_lt_length_iff_exists.2 ⟨d, ?_, ?_⟩
    · simp [hd, hsame, hnew]
    · simp [hsame, hname]
  · rw [if_neg (by simpa using hc)]
    exact Nat.lt_succ_of_le (List.length_filter_le _ _)

/-- The classes from `next` upward, up to the first one that has been passed before. -/
def lineageFrom (r : Registry) (passed : List String) (next : Option ClassDef) : List ClassDef :=
  match next with
  | none => []
  | some c =>
    if _again : c.name ∈ passed then []
    else c :: r.lineageFrom (passed ++ [c.name]) (r.parentOf? c)
termination_by r.stepsAhead passed next
decreasing_by exact r.stepsAhead_lt _again (by simp) (by simp +contextual)

def lineage (r : Registry) (c : ClassDef) : List ClassDef :=
  r.lineageFrom [] (some c)

end Registry

structure Resolved where
  owner : ClassDef
  field : Field
  depth : Nat
  deriving DecidableEq

namespace Registry

def resolve? (r : Registry) (c : ClassDef) (name : String) : Option Resolved :=
  (r.lineage c).zipIdx.findSome? fun (owner, depth) =>
    (owner.field? name).map fun field => ⟨owner, field, depth⟩

end Registry

/-- What a schema declares: its classes, and the settings of each backend under the backend's name
in lower case. -/
structure Schema where
  registry : Registry := .empty
  backends : Dictionary Settings := .empty

namespace Schema

def settings (s : Schema) (backend : String) : Settings :=
  (s.backends.get? (Text.lowerAscii backend)).getD .empty

end Schema

end WireSchema
