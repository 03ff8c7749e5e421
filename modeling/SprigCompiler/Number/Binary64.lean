/-!
Binary floating-point numbers of 64 bits.

A number is its bit pattern: a sign bit and a magnitude of 63 bits.  The finite magnitudes are
ordered as the numbers that they stand for, and each stands for a whole number of units, where the
unit is two to the power of minus 1074.  Rounding a fraction therefore means finding the magnitude
whose units lie nearest.
-/

namespace SprigCompiler

def twoTo (exponent : Nat) : Nat := Nat.pow 2 exponent

structure Binary64 where
  bits : UInt64
  deriving DecidableEq, Repr

namespace Binary64

def signWeight : Nat := twoTo 63

/-- The weight of the lowest exponent bit: how many magnitudes share one exponent. -/
def exponentWeight : Nat := twoTo 52

/-- The magnitude of the infinities.  Smaller ones are finite, larger ones are no numbers. -/
def infiniteMagnitude : Nat := 2047 * exponentWeight

def unitsPerOne : Nat := twoTo 1074

def ofMagnitude (negative : Bool) (magnitude : Nat) : Binary64 :=
  ⟨UInt64.ofNat ((if negative then signWeight else 0) + magnitude)⟩

def isNegative (number : Binary64) : Bool := signWeight ≤ number.bits.toNat

def magnitude (number : Binary64) : Nat := number.bits.toNat % signWeight

def isNaN (number : Binary64) : Bool := infiniteMagnitude < number.magnitude

def isInfinite (number : Binary64) : Bool := number.magnitude = infiniteMagnitude

/-- The value of a finite magnitude in units.  In the lowest exponent the magnitude counts the
units; above it, every exponent doubles the step. -/
def units (magnitude : Nat) : Nat :=
  if magnitude < exponentWeight then magnitude
  else (exponentWeight + magnitude % exponentWeight) * twoTo (magnitude / exponentWeight - 1)

/-- Numerical equality: what is no number differs from everything, and the two zeros are equal. -/
def sameValue (left right : Binary64) : Bool :=
  !left.isNaN && !right.isNaN &&
    (left.bits == right.bits || (left.magnitude == 0 && right.magnitude == 0))

/-- A quotient rounded to the nearest whole number; a half goes to the even neighbour. -/
def divNearestEven (dividend divisor : Nat) : Nat :=
  let quotient := dividend / divisor
  let twice := 2 * (dividend % divisor)
  if twice < divisor then quotient
  else if divisor < twice then quotient + 1
  else quotient + quotient % 2

/-- The magnitude nearest to a fraction, of two equally near ones the even one.  What rounds
beyond the finite magnitudes is infinite.

With `step` chosen so that the fraction has 53 binary digits in steps of two to that power, the
rounded count of steps and the exponent add up to the magnitude, also when rounding carries into
the next exponent. -/
def nearestMagnitude (numerator denominator : Nat) : Nat :=
  let scaled := numerator * unitsPerOne
  let step := (scaled / denominator).log2 - 52
  min (step * exponentWeight + divNearestEven scaled (denominator * twoTo step)) infiniteMagnitude

end Binary64

end SprigCompiler
