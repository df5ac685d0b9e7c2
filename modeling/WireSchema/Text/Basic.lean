namespace WireSchema.Text

def lowerAscii (s : String) : String :=
  String.ofList (s.toList.map Char.toLower)

def sameKeyword (a b : String) : Bool :=
  lowerAscii a == lowerAscii b

/-- The Unicode property `White_Space`. -/
def isBlank (c : Char) : Bool :=
  let n := c.toNat
  (0x09 ≤ n && n ≤ 0x0d) || n == 0x20 || n == 0x85 || n == 0xa0 || n == 0x1680 ||
    (0x2000 ≤ n && n ≤ 0x200a) || n == 0x2028 || n == 0x2029 || n == 0x202f || n == 0x205f ||
    n == 0x3000

def trimChars (cs : List Char) : List Char :=
  ((cs.dropWhile isBlank).reverse.dropWhile isBlank).reverse

def trim (s : String) : String :=
  String.ofList (trimChars s.toList)

/-- The maximal nonempty runs of characters that are not separators. -/
def wordsBy (isSeparator : Char → Bool) (s : String) : List String :=
  ((s.toList.splitOnP isSeparator).filter (!·.isEmpty)).map String.ofList

/-- What stands behind a mark that a text begins with. -/
def behind? : List Char → List Char → Option (List Char)
  | [], cs => some cs
  | _ :: _, [] => none
  | m :: mark, c :: cs => if m = c then behind? mark cs else none

theorem behind?_eq_some_iff {mark cs rest : List Char} :
    behind? mark cs = some rest ↔ cs = mark ++ rest := by
  induction mark generalizing cs with
  | nil => simp [behind?]
  | cons m mark ih =>
    cases cs with
    | nil => simp [behind?]
    | cons c cs =>
      by_cases h : m = c
      · simp [behind?, h, ih]
      · simp [behind?, h, Ne.symm h]

theorem length_le_of_behind? {mark cs rest : List Char} (h : behind? mark cs = some rest) :
    rest.length ≤ cs.length := by
  rw [behind?_eq_some_iff.1 h, List.length_append]
  omega

def digitValue (c : Char) : Option Nat :=
  if '0' ≤ c ∧ c ≤ '9' then some (c.toNat - '0'.toNat)
  else if 'a' ≤ c ∧ c ≤ 'z' then some (c.toNat - 'a'.toNat + 10)
  else if 'A' ≤ c ∧ c ≤ 'Z' then some (c.toNat - 'A'.toNat + 10)
  else none

def isDigit (base : Nat) (c : Char) : Bool :=
  match digitValue c with
  | some d => d < base
  | none => false

def digitsValue (base : Nat) (cs : List Char) : Nat :=
  cs.foldl (fun n c => base * n + (digitValue c).getD 0) 0

def numeral? (base : Nat) (cs : List Char) : Option Nat :=
  if !cs.isEmpty && cs.all (isDigit base) then some (digitsValue base cs) else none

/-- A numeral below `2 ^ bits`, with or without one plus sign. -/
def unsigned? (base bits : Nat) (cs : List Char) : Option Nat :=
  let digits := match cs with
    | '+' :: ds => ds
    | ds => ds
  (numeral? base digits).filter (· < Nat.pow 2 bits)

/-- A numeral with or without one sign, in the range of `bits`-bit two's complement. -/
def signed? (base bits : Nat) (cs : List Char) : Option Int :=
  let value : Option Int := match cs with
    | '-' :: ds => (numeral? base ds).map (fun n => -(n : Int))
    | '+' :: ds => (numeral? base ds).map Int.ofNat
    | ds => (numeral? base ds).map Int.ofNat
  let bound : Int := Nat.pow 2 (bits - 1)
  value.filter fun n => -bound ≤ n ∧ n < bound

end WireSchema.Text
