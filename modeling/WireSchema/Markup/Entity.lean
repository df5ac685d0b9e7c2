import WireSchema.Text.Basic

namespace WireSchema.Markup

inductive EntityError where
  /-- an ampersand without a semicolon behind it, in the text `raw` -/
  | unterminated (raw : String)
  | unknown (name : String)
  deriving DecidableEq, Repr

namespace EntityError

def message : EntityError → String
  | unterminated raw => s!"unterminated entity reference in `{raw}`"
  | unknown name => s!"unknown entity `&{name};`"

end EntityError

def namedEntity? : String → Option Char
  | "lt" => some '<'
  | "gt" => some '>'
  | "amp" => some '&'
  | "quot" => some '"'
  | "apos" => some '\''
  | _ => none

def charOfCode? (n : Nat) : Option Char :=
  if n.isValidChar then some (Char.ofNat n) else none

def entity? (name : List Char) : Option Char :=
  match name with
  | '#' :: 'x' :: ds | '#' :: 'X' :: ds => (Text.unsigned? 16 32 ds).bind charOfCode?
  | '#' :: ds => (Text.unsigned? 10 32 ds).bind charOfCode?
  | _ => namedEntity? (String.ofList name)

def decodeChars (raw : String) (cs : List Char) : Except EntityError (List Char) :=
  match cs with
  | [] => .ok []
  | '&' :: rest =>
    match _found : rest.dropWhile (· != ';') with
    | [] => .error (.unterminated raw)
    | _ :: after =>
      let name := rest.takeWhile (· != ';')
      match entity? name with
      | none => .error (.unknown (String.ofList name))
      | some c => (decodeChars raw after).map (c :: ·)
  | c :: rest => (decodeChars raw rest).map (c :: ·)
termination_by cs.length
decreasing_by
  · have := (List.dropWhile_suffix (l := rest) (· != ';')).length_le
    simp only [_found, List.length_cons] at this ⊢
    omega
  · simp

def decodeEntities (raw : String) : Except EntityError String :=
  (decodeChars raw raw.toList).map String.ofList

end WireSchema.Markup
