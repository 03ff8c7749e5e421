import SprigCompiler.Number.Binary64

/-!
Reading decimal numerals.

A numeral is an optional sign and then digits with at most one point among them, at least one digit
in all, and an optional power of ten; or, in letters of either case, one of the words `inf`,
`infinity` and `nan`.  It is read as the nearest number.
-/

namespace SprigCompiler.Decimal

def tenTo (exponent : Nat) : Nat := Nat.pow 10 exponent

def digitsValue (digits : List Char) : Nat :=
  digits.foldl (fun value digit => 10 * value + (digit.toNat - '0'.toNat)) 0

/-- A sign in front of the characters, if there is one: whether it is a minus, and the rest. -/
def splitSign : List Char → Bool × List Char
  | '-' :: rest => (true, rest)
  | '+' :: rest => (false, rest)
  | characters => (false, characters)

/-- The power of ten written behind the digits: nothing stands for zero, otherwise the letter
`e`, an optional sign and at least one digit. -/
def exponent? : List Char → Option Int
  | [] => some 0
  | letter :: rest =>
      if letter = 'e' ∨ letter = 'E' then
        let (negative, digits) := splitSign rest
        if digits.isEmpty || !digits.all Char.isDigit then none
        else if negative then some (-(digitsValue digits : Int))
        else some (digitsValue digits)
      else none

def splitFraction : List Char → List Char × List Char
  | '.' :: rest => (rest.takeWhile Char.isDigit, rest.dropWhile Char.isDigit)
  | characters => ([], characters)

/-- The number nearest to a whole number times a power of ten.  Powers so high or so low that the
result can only be infinite or zero are not computed. -/
def scale (negative : Bool) (coefficient : Nat) (exponent : Int) : Binary64 :=
  if coefficient = 0 then .ofMagnitude negative 0
  else if exponent > 400 then .ofMagnitude negative Binary64.infiniteMagnitude
  else if exponent + (coefficient.log2 + 401 : Nat) < 0 then .ofMagnitude negative 0
  else if 0 ≤ exponent then
    .ofMagnitude negative (Binary64.nearestMagnitude (coefficient * tenTo exponent.toNat) 1)
  else .ofMagnitude negative (Binary64.nearestMagnitude coefficient (tenTo (-exponent).toNat))

def readDigits? (negative : Bool) (characters : List Char) : Option Binary64 :=
  let whole := characters.takeWhile Char.isDigit
  let (fraction, rest) := splitFraction (characters.dropWhile Char.isDigit)
  if whole.isEmpty && fraction.isEmpty then none
  else (exponent? rest).map fun exponent =>
    scale negative (digitsValue (whole ++ fraction)) (exponent - fraction.length)

def readWord? (negative : Bool) (characters : List Char) : Option Binary64 :=
  let word := String.ofList (characters.map Char.toLower)
  if word = "inf" ∨ word = "infinity" then
    some (.ofMagnitude negative Binary64.infiniteMagnitude)
  else if word = "nan" then
    some (.ofMagnitude negative (Binary64.infiniteMagnitude + twoTo 51))
  else none

def read? (characters : List Char) : Option Binary64 :=
  let (negative, body) := splitSign characters
  (readDigits? negative body).or (readWord? negative body)

end SprigCompiler.Decimal
