import WireSchema.Object.Scalar

namespace WireSchema

mutual

inductive Value where
  | scalar (value : Scalar)
  | list (items : List Value)
  | object (value : Object)

/-- The part that an object inherits is an object of its own. -/
inductive Object where
  | mk (className : String) (parent : Option Object) (fields : List (String × Value))

end

namespace Value

def scalar? : Value → Option Scalar
  | scalar s => some s
  | _ => none

def list? : Value → Option (List Value)
  | list vs => some vs
  | _ => none

def object? : Value → Option Object
  | object o => some o
  | _ => none

def primitive? (v : Value) : Option Primitive :=
  v.scalar?.map Scalar.type

def toInt? (v : Value) : Option Int :=
  v.scalar?.bind Scalar.toInt?

/-- The value as an element count: a whole number that is not negative. -/
def toCount? (v : Value) : Option Nat :=
  (v.toInt?.filter (0 ≤ ·)).map Int.toNat

def toDouble? (v : Value) : Option (BitVec 64) :=
  v.scalar?.bind Scalar.toDouble?

end Value

namespace Object

def className : Object → String
  | mk c _ _ => c

def parent : Object → Option Object
  | mk _ p _ => p

def fields : Object → List (String × Value)
  | mk _ _ fs => fs

def own? (o : Object) (name : String) : Option Value :=
  o.fields.lookup name

def updateNamed? (name : String) (change : Value → Option Value) :
    List (String × Value) → Option (List (String × Value))
  | [] => none
  | (n, v) :: rest =>
    if n = name then (change v).map fun w => (n, w) :: rest
    else (updateNamed? name change rest).map ((n, v) :: ·)

def updateOwn? (o : Object) (name : String) (change : Value → Option Value) : Option Object :=
  (updateNamed? name change o.fields).map (mk o.className o.parent)

def setOwn? (o : Object) (name : String) (v : Value) : Option Object :=
  o.updateOwn? name fun _ => some v

def withParent (o p : Object) : Object :=
  mk o.className (some p) o.fields

/-- The field of a name in the object or the nearest inherited part that has it. -/
def get? (name : String) : Object → Option Value
  | mk _ none fields => fields.lookup name
  | mk _ (some p) fields => (fields.lookup name).or (p.get? name)

def update? (name : String) (change : Value → Option Value) : Object → Option Object
  | mk c none fields => (updateNamed? name change fields).map (mk c none)
  | mk c (some p) fields =>
    if (fields.lookup name).isSome then (updateNamed? name change fields).map (mk c (some p))
    else (p.update? name change).map fun q => mk c (some q) fields

def set? (o : Object) (name : String) (v : Value) : Option Object :=
  o.update? name fun _ => some v

def append? (o : Object) (name : String) (items : List Value) : Option Object :=
  o.update? name fun
    | .list vs => some (.list (vs ++ items))
    | _ => none

def push? (o : Object) (name : String) (v : Value) : Option Object :=
  o.append? name [v]

/-- Adds the same item `count` times. Adding none is always possible. -/
def fill? (o : Object) (name : String) (v : Value) (count : Nat) : Option Object :=
  if count = 0 then some o else o.append? name (List.replicate count v)

/-- The inherited part `depth` steps up; the object itself at depth 0. -/
def atDepth? : Nat → Object → Option Object
  | 0, o => some o
  | n + 1, o => o.parent.bind (atDepth? n)

def updateAtDepth? (change : Object → Option Object) : Nat → Object → Option Object
  | 0, o => change o
  | n + 1, o => o.parent.bind fun p => (updateAtDepth? change n p).map o.withParent

end Object

mutual

def Value.same : Value → Value → Bool
  | .scalar a, .scalar b => a.same b
  | .list a, .list b => Value.sameAll a b
  | .object a, .object b => Object.same a b
  | _, _ => false

def Object.same : Object → Object → Bool
  | .mk c p fs, .mk d q gs => c == d && Object.samePart p q && Object.sameFields fs gs

def Object.samePart : Option Object → Option Object → Bool
  | none, none => true
  | some p, some q => Object.same p q
  | _, _ => false

def Value.sameAll : List Value → List Value → Bool
  | [], [] => true
  | a :: as, b :: bs => Value.same a b && Value.sameAll as bs
  | _, _ => false

def Object.sameFields : List (String × Value) → List (String × Value) → Bool
  | [], [] => true
  | (m, a) :: as, (n, b) :: bs => m == n && Value.same a b && Object.sameFields as bs
  | _, _ => false

end

mutual

/-- How deeply objects are nested in a value, inherited parts included. -/
def Value.height : Value → Nat
  | .scalar _ => 0
  | .list vs => Value.heights vs
  | .object o => Object.height o

def Object.height : Object → Nat
  | .mk _ p fs => max (Object.partHeight p) (Object.fieldHeights fs) + 1

def Object.partHeight : Option Object → Nat
  | none => 0
  | some p => Object.height p

def Value.heights : List Value → Nat
  | [] => 0
  | v :: vs => max (Value.height v) (Value.heights vs)

def Object.fieldHeights : List (String × Value) → Nat
  | [] => 0
  | (_, v) :: fs => max (Value.height v) (Object.fieldHeights fs)

end

theorem Value.height_le_heights {v : Value} {vs : List Value} (h : v ∈ vs) :
    v.height ≤ Value.heights vs := by
  induction vs with
  | nil => simp at h
  | cons w ws ih =>
    rcases List.mem_cons.1 h with rfl | h
    · simp only [Value.heights]; omega
    · have := ih h; simp only [Value.heights]; omega

theorem Object.parent_height_lt {o p : Object} (h : o.parent = some p) : p.height < o.height := by
  obtain ⟨c, q, fs⟩ := o
  simp only [Object.parent] at h
  subst h
  simp only [Object.height, Object.partHeight]
  omega

theorem Object.height_le_fieldHeights {name : String} {v : Value} {fs : List (String × Value)}
    (h : fs.lookup name = some v) : v.height ≤ Object.fieldHeights fs := by
  induction fs with
  | nil => simp at h
  | cons e es ih =>
    obtain ⟨n, w⟩ := e
    rw [List.lookup_cons] at h
    split at h
    · cases h; simp only [Object.fieldHeights]; omega
    · have := ih h; simp only [Object.fieldHeights]; omega

theorem Object.own_height_lt {o : Object} {name : String} {v : Value} (h : o.own? name = some v) :
    v.height < o.height := by
  obtain ⟨c, p, fs⟩ := o
  have := Object.height_le_fieldHeights (show fs.lookup name = some v from h)
  simp only [Object.height]
  omega

theorem Object.item_height_lt {o : Object} {name : String} {vs : List Value} {v : Value}
    (h : o.own? name = some (.list vs)) (hv : v ∈ vs) : v.height < o.height := by
  have h₁ := Value.height_le_heights hv
  have h₂ := Object.own_height_lt h
  simp only [Value.height] at h₂
  omega

end WireSchema
