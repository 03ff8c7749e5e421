import SprigCompiler.Number.Decimal

/-!
Writing numbers in decimal.

A finite number is written with the fewest digits that read back as the same number, of two such
forms the one nearer to it, and of two equally near ones the larger.  The digits are positional: no
power of ten is written, a point is followed by at least one digit, and a fraction never ends in a
zero.
-/

namespace SprigCompiler.Decimal

/-- Positional digits of `coefficient` with the point `places` digits from the right. -/
def positional (coefficient places : Nat) : List Char :=
  let digits := Nat.toDigits 10 coefficient
  let padded := List.replicate (places + 1 - digits.length) '0' ++ digits
  let whole := padded.take (padded.length - places)
  let fraction :=
    ((padded.drop (padded.length - places)).reverse.dropWhile (· = '0')).reverse
  if fraction.isEmpty then whole else whole ++ '.' :: fraction

def signed (negative : Bool) (characters : List Char) : List Char :=
  if negative then '-' :: characters else characters

/-- The decimal places to which a value is expanded before it is cut to fewer digits.  Every
value above zero has more than seventeen digits before the last of them. -/
def expansionPlaces : Nat := 400

/-- The number of decimal digits of a value above zero.  A power of two has at least 1233 in 4096
times as many decimal digits, and for the values in use at most two more. -/
def digitCount (value : Nat) : Nat :=
  let least := value.log2 * 1233 / 4096
  if value < tenTo least then least
  else if value < tenTo (least + 1) then least + 1
  else least + 2

/-- The expansion with its last `dropped` digits given up and `coefficient` left. -/
def form (coefficient dropped : Nat) : List Char :=
  positional (coefficient * tenTo (dropped - expansionPlaces)) (expansionPlaces - dropped)

/-- The two forms next to a value when the last `dropped` digits of its expansion are given up:
the nearer one first, and the upper one if both are equally near. -/
def neighbours (expansion dropped : Nat) : List (List Char) :=
  let unit := tenTo dropped
  let lower := form (expansion / unit) dropped
  let upper := form (expansion / unit + 1) dropped
  if 2 * (expansion % unit) < unit then [lower, upper] else [upper, lower]

def readsBack (number : Binary64) (characters : List Char) : Bool :=
  read? (signed number.isNegative characters) = some number

def found? (number : Binary64) : Option (List Char) :=
  let expansion := Binary64.units number.magnitude * tenTo expansionPlaces / Binary64.unitsPerOne
  let count := digitCount expansion
  (List.range 17).findSome? fun more =>
    (neighbours expansion (count - (more + 1))).find? (readsBack number)

def fullPlaces : Nat := 1074

def full (number : Binary64) : List Char :=
  positional (Binary64.units number.magnitude * Nat.pow 5 fullPlaces) fullPlaces

/-- The first form of one to seventeen digits that reads back; were there none, all digits. -/
def shortest (number : Binary64) : List Char := (found? number).getD (full number)

def write (infinity : String) (number : Binary64) : String :=
  if number.isNaN then "NaN"
  else if number.isInfinite then String.ofList (signed number.isNegative infinity.toList)
  else if number.magnitude = 0 then String.ofList (signed number.isNegative ['0'])
  else String.ofList (signed number.isNegative (shortest number))

end SprigCompiler.Decimal
