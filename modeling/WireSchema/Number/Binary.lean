namespace WireSchema

/-- A finite magnitude is a natural number of the least unit of its format, the smallest positive
number. With the sign bit off, words are ordered as their magnitudes are: word `k * 2 ^ (precision -
1) + m` stands for `m * 2 ^ k` units. -/
structure BinaryFormat where
  /-- Bits of the significand, the implied leading bit included. -/
  precision : Nat
  exponentBits : Nat
  deriving DecidableEq, Repr

namespace BinaryFormat

def single : BinaryFormat := ⟨24, 8⟩

def double : BinaryFormat := ⟨53, 11⟩

variable (f : BinaryFormat)

def signBit : Nat := Nat.pow 2 (f.precision + f.exponentBits - 1)

def bias : Nat := Nat.pow 2 (f.exponentBits - 1) - 1

/-- The number 1 is `2 ^ unitScale` units. -/
def unitScale : Nat := f.bias + f.precision - 2

/-- The word of infinity. It follows the greatest finite one, and words above it are not numbers. -/
def infinity : Nat := (Nat.pow 2 f.exponentBits - 1) * Nat.pow 2 (f.precision - 1)

def negative (word : Nat) : Bool := f.signBit ≤ word

def magnitude (word : Nat) : Nat := word % f.signBit

def isNaN (word : Nat) : Bool := f.infinity < f.magnitude word

def isFinite (word : Nat) : Bool := f.magnitude word < f.infinity

def isZero (word : Nat) : Bool := f.magnitude word == 0

def withSign (negative : Bool) (magnitude : Nat) : Nat :=
  if negative then f.signBit + magnitude else magnitude

def units (word : Nat) : Nat :=
  let half := Nat.pow 2 (f.precision - 1)
  let exponent := word / half
  if exponent = 0 then word else (half + word % half) * Nat.pow 2 (exponent - 1)

end BinaryFormat

/-- The whole number nearest to `num / den`, the even one of two. -/
def roundDiv (num den : Nat) : Nat :=
  let q := num / den
  let r := num % den
  if 2 * r < den then q
  else if den < 2 * r then q + 1
  else q + q % 2

namespace BinaryFormat

variable (f : BinaryFormat)

/-- The magnitude nearest to `num / den` units, the even word of two. What would round past the
greatest finite number is infinity. -/
def ofUnits (num den : Nat) : Nat :=
  let shift := (num / den).log2 + 1 - f.precision
  min f.infinity (shift * Nat.pow 2 (f.precision - 1) + roundDiv num (den * Nat.pow 2 shift))

def ofRatio (num den : Nat) : Nat :=
  f.ofUnits (num * Nat.pow 2 f.unitScale) den

def ofInt (n : Int) : Nat :=
  f.withSign (n < 0) (f.ofRatio n.natAbs 1)

/-- The same number in another format, rounded if it has to be. A word that is not a number keeps
its sign and the leading bits of its payload, and comes out quiet. -/
def convert (g : BinaryFormat) (word : Nat) : Nat :=
  let m := f.magnitude word
  if f = g then word
  else g.withSign (f.negative word) <|
    if f.isNaN word then
      let half := Nat.pow 2 (f.precision - 1)
      let payload := m % half * Nat.pow 2 (g.precision - 1) / half
      g.infinity + (payload ||| Nat.pow 2 (g.precision - 2))
    else if f.isFinite word then g.ofRatio (f.units m) (Nat.pow 2 f.unitScale)
    else g.infinity

/-- Equality of numbers: the two zeros are equal, and what is not a number equals nothing. -/
def sameNumber (a b : Nat) : Bool :=
  !f.isNaN a && !f.isNaN b && (a == b || (f.isZero a && f.isZero b))

end BinaryFormat

end WireSchema
