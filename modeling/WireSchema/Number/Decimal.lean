import WireSchema.Number.Binary
import WireSchema.Text.Basic

namespace WireSchema

structure Decimal where
  coefficient : Nat
  exponent : Int
  deriving DecidableEq, Repr

namespace Decimal

open Text (isDigit digitsValue numeral?)

def read? (cs : List Char) : Option Decimal :=
  let whole := cs.takeWhile (isDigit 10)
  let afterWhole := cs.dropWhile (isDigit 10)
  let (fraction, rest) := match afterWhole with
    | '.' :: ds => (ds.takeWhile (isDigit 10), ds.dropWhile (isDigit 10))
    | ds => ([], ds)
  let digits := whole ++ fraction
  let number (exponent : Int) : Decimal := ⟨digitsValue 10 digits, exponent - fraction.length⟩
  if digits.isEmpty then none
  else match rest with
    | [] => some (number 0)
    | e :: ds =>
      if e = 'e' ∨ e = 'E' then
        match ds with
        | '-' :: ds => (numeral? 10 ds).map fun n => number (-(n : Int))
        | '+' :: ds => (numeral? 10 ds).map fun n => number n
        | ds => (numeral? 10 ds).map fun n => number n
      else none

def digitCount (n : Nat) : Nat :=
  (Nat.toDigits 10 n).length

/-- The binary magnitude nearest to a decimal. A decimal of more than `bias + 1` places before the
point is past every finite number, and one with as many zeros behind the point as `bias` and the
precision together is nearest to zero; in between the ratio is formed and rounded. -/
def toBinary (f : BinaryFormat) (d : Decimal) : Nat :=
  let places := digitCount d.coefficient + d.exponent
  if d.coefficient = 0 then 0
  else if f.bias + 1 < places then f.infinity
  else if places < -((f.bias + f.precision : Nat) : Int) then 0
  else if 0 ≤ d.exponent then f.ofRatio (d.coefficient * Nat.pow 10 d.exponent.toNat) 1
  else f.ofRatio d.coefficient (Nat.pow 10 (-d.exponent).toNat)

/-- Whether a decimal lies between the midpoints to the two neighbours of the magnitude `word`, and
so is read as it. A midpoint itself is read as the even word. -/
def readsAs (f : BinaryFormat) (word : Nat) (d : Decimal) : Bool :=
  let low := f.units (word - 1) + f.units word
  let high := f.units word + f.units (word + 1)
  let num := d.coefficient * Nat.pow 10 d.exponent.toNat * Nat.pow 2 (f.unitScale + 1)
  let den := Nat.pow 10 (-d.exponent).toNat
  if word % 2 = 0 then low * den ≤ num && num ≤ high * den
  else low * den < num && num < high * den

/-- The number of places before the point of `num / den`, counted below zero for leading zeros
behind the point; at most one too small or too large before the comparison. -/
def placesOfRatio (num den : Nat) : Int :=
  let guess : Int := (digitCount num : Int) - digitCount den
  if den * Nat.pow 10 guess.toNat ≤ num * Nat.pow 10 (-guess).toNat then guess + 1 else guess

/-- The decimal of `n` digits that is read as `word`: of the two neighbours of its number among
the decimals of that many digits the nearer one that is, the greater if both are as near. -/
def ofDigits? (f : BinaryFormat) (word n : Nat) : Option Decimal :=
  let num := f.units word
  let den := Nat.pow 2 f.unitScale
  let exponent := placesOfRatio num den - n
  let num := num * Nat.pow 10 (-exponent).toNat
  let den := den * Nat.pow 10 exponent.toNat
  let below : Decimal := ⟨num / den, exponent⟩
  let above : Decimal := ⟨num / den + 1, exponent⟩
  match readsAs f word below, readsAs f word above with
  | true, true => if 2 * (num % den) < den then some below else some above
  | true, false => some below
  | false, true => some above
  | false, false => none

/-- The shortest decimal that is read as the magnitude `word` of a positive finite number. With
17 digits every number of a double has one. -/
def shortest (f : BinaryFormat) (word : Nat) : Decimal :=
  ((List.range 17).findSome? fun n => ofDigits? f word (n + 1)).getD ⟨0, 0⟩

def normalize (d : Decimal) : Decimal :=
  let digits := Nat.toDigits 10 d.coefficient
  let kept := (digits.reverse.dropWhile (· = '0')).reverse
  ⟨digitsValue 10 kept, d.exponent + (digits.length - kept.length : Nat)⟩

/-- Plain notation with a point for numbers from 0.0001 up to, but not including, 10 ^ 16, and an
exponent behind one leading digit for others. -/
def print (d : Decimal) : String :=
  let d := d.normalize
  let digits := Nat.toDigits 10 d.coefficient
  let places := digits.length + d.exponent
  let zeros (n : Int) : List Char := List.replicate n.toNat '0'
  String.ofList <|
    if -4 < places ∧ places ≤ 16 then
      if places ≤ 0 then '0' :: '.' :: zeros (-places) ++ digits
      else if places < digits.length then
        digits.take places.toNat ++ '.' :: digits.drop places.toNat
      else digits ++ zeros (places - digits.length) ++ ['.', '0']
    else
      let fraction := match digits.drop 1 with
        | [] => []
        | ds => '.' :: ds
      digits.take 1 ++ fraction ++ 'e' :: (toString (places - 1)).toList

end Decimal

def BinaryFormat.print (f : BinaryFormat) (word : Nat) : String :=
  let sign := if f.negative word then "-" else ""
  let m := f.magnitude word
  if f.isNaN word then "NaN"
  else if !f.isFinite word then sign ++ "inf"
  else if m = 0 then sign ++ "0.0"
  else sign ++ (Decimal.shortest f m).print

end WireSchema
