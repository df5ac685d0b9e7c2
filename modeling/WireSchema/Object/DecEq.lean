import WireSchema.Object.Basic

namespace WireSchema

mutual

def Value.decEq : (a b : Value) → Decidable (a = b)
  | .scalar a, .scalar b => decidable_of_iff (a = b) (by simp)
  | .list a, .list b =>
    match Value.decEqAll a b with
    | isTrue h => isTrue (by rw [h])
    | isFalse h => isFalse (by simpa using h)
  | .object a, .object b =>
    match Object.decEq a b with
    | isTrue h => isTrue (by rw [h])
    | isFalse h => isFalse (by simpa using h)
  | .scalar _, .list _ | .scalar _, .object _ | .list _, .scalar _ | .list _, .object _
  | .object _, .scalar _ | .object _, .list _ => isFalse (by simp)

def Object.decEq : (a b : Object) → Decidable (a = b)
  | .mk c p fs, .mk d q gs =>
    if hc : c = d then
      match Object.decEqPart p q, Object.decEqFields fs gs with
      | isTrue hp, isTrue hf => isTrue (by rw [hc, hp, hf])
      | isFalse hp, _ => isFalse (by simp [hp])
      | _, isFalse hf => isFalse (by simp [hf])
    else isFalse (by simp [hc])

def Object.decEqPart : (a b : Option Object) → Decidable (a = b)
  | none, none => isTrue rfl
  | some p, some q =>
    match Object.decEq p q with
    | isTrue h => isTrue (by rw [h])
    | isFalse h => isFalse (by simpa using h)
  | none, some _ | some _, none => isFalse (by simp)

def Value.decEqAll : (a b : List Value) → Decidable (a = b)
  | [], [] => isTrue rfl
  | v :: vs, w :: ws =>
    match Value.decEq v w, Value.decEqAll vs ws with
    | isTrue h, isTrue hs => isTrue (by rw [h, hs])
    | isFalse h, _ => isFalse (by simp [h])
    | _, isFalse hs => isFalse (by simp [hs])
  | [], _ :: _ | _ :: _, [] => isFalse (by simp)

def Object.decEqFields : (a b : List (String × Value)) → Decidable (a = b)
  | [], [] => isTrue rfl
  | (m, v) :: fs, (n, w) :: gs =>
    if hn : m = n then
      match Value.decEq v w, Object.decEqFields fs gs with
      | isTrue h, isTrue hs => isTrue (by rw [hn, h, hs])
      | isFalse h, _ => isFalse (by simp [h])
      | _, isFalse hs => isFalse (by simp [hs])
    else isFalse (by simp [hn])
  | [], _ :: _ | _ :: _, [] => isFalse (by simp)

end

instance : DecidableEq Value := Value.decEq

instance : DecidableEq Object := Object.decEq

end WireSchema
