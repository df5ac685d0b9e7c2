import WireSchema.Text.Basic

namespace WireSchema

structure Dictionary (α : Type) where
  entries : List (String × α)
  deriving DecidableEq, Repr

namespace Dictionary

variable {α : Type}

def empty : Dictionary α := ⟨[]⟩

def get? (d : Dictionary α) (key : String) : Option α :=
  d.entries.lookup key

def insertEntry (key : String) (value : α) : List (String × α) → List (String × α)
  | [] => [(key, value)]
  | (k, v) :: rest =>
    if key < k then (key, value) :: (k, v) :: rest
    else if key = k then (key, value) :: rest
    else (k, v) :: insertEntry key value rest

def insert (d : Dictionary α) (key : String) (value : α) : Dictionary α :=
  ⟨insertEntry key value d.entries⟩

def isEmpty (d : Dictionary α) : Bool :=
  d.entries.isEmpty

end Dictionary

abbrev Settings := Dictionary String

namespace Settings

def getD (s : Settings) (key default : String) : String :=
  (s.get? key).getD default

def words (s : Settings) (key : String) : List String :=
  match s.get? key with
  | some text => Text.wordsBy (fun c => c == ',' || Text.isBlank c) text
  | none => []

/-- Adds the settings of one more block. A key given again takes the later value. -/
def insertAll (s : Settings) (pairs : List (String × String)) : Settings :=
  pairs.foldl (fun s (key, value) => s.insert key value) s

end Settings

end WireSchema
