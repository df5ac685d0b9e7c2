namespace WireSchema

inductive Entry where
  | file (text : String)
  | directory (entries : List (String × Entry))
  deriving Repr

namespace Entry

def put (name : String) (new : Entry) : List (String × Entry) → List (String × Entry)
  | [] => [(name, new)]
  | (n, e) :: rest => if n = name then (name, new) :: rest else (n, e) :: put name new rest

theorem lookup_put (name other : String) (new : Entry) (entries : List (String × Entry)) :
    (put name new entries).lookup other =
      if other = name then some new else entries.lookup other := by
  induction entries with
  | nil => by_cases h : other = name <;> simp [put, List.lookup_cons, beq_eq_false_iff_ne.2, h]
  | cons head rest ih =>
    obtain ⟨n, e⟩ := head
    by_cases hn : n = name
    · by_cases h : other = name <;>
        simp [put, List.lookup_cons, beq_eq_false_iff_ne.2, hn, h]
    · by_cases h : other = n
      · simp [put, hn, h]
      · simp [put, List.lookup_cons, beq_eq_false_iff_ne.2, hn, h, ih]

def child? (e : Entry) (name : String) : Option Entry :=
  match e with
  | file _ => none
  | directory entries => entries.lookup name

def find? : List String → Entry → Option Entry
  | [], e => some e
  | name :: names, e =>
    match e.child? name with
    | none => none
    | some e => find? names e

theorem find?_append (names more : List String) (e : Entry) :
    find? (names ++ more) e = (find? names e).bind (find? more) := by
  induction names generalizing e with
  | nil => rfl
  | cons name names ih =>
    rw [List.cons_append, find?, find?]
    cases e.child? name with
    | none => rfl
    | some e => exact ih e

def insert (new : Entry) : List String → Entry → Entry
  | [], e => e
  | _ :: _, file text => file text
  | [name], directory entries => directory (put name new entries)
  | name :: names, directory entries =>
    match entries.lookup name with
    | none => directory entries
    | some e => directory (put name (insert new names e) entries)

mutual

def files : Entry → List (List String × String)
  | file text => [([], text)]
  | directory entries => filesBelow entries

def filesBelow : List (String × Entry) → List (List String × String)
  | [] => []
  | (name, e) :: rest => (files e).map (fun (names, text) => (name :: names, text)) ++ filesBelow rest

end

end Entry

end WireSchema
