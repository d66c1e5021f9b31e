/-!
# Decimal scaling

The real number that is meant by a whole number and a power of ten.  The whole number is rounded
first and then multiplied or divided by the rounded power, so the result may be off in its last
bit.  It is not the nearest double of the decimal.

Powers above `10 ^ 308` are not doubles.  A number that is too large for one has no value here, and
one that is too small is brought down in several divisions, until it is zero.
-/

namespace Correlation

/-- The double nearest to a power of ten, up to `10 ^ 308`. -/
def powerOfTen (n : Nat) : Float := Float.ofScientific 1 false n

/-- Divides by `10 ^ n`, in steps of at most `10 ^ 308`. -/
def scaleDown (x : Float) (n : Nat) : Float :=
  if n ≤ 308 then x / powerOfTen n
  else if x == 0.0 then x
  else scaleDown (x / powerOfTen 308) (n - 308)
termination_by n
decreasing_by omega

/-- Multiplies by `10 ^ n`, if that is within the range of doubles. -/
def scaleUp? (x : Float) (n : Nat) : Option Float :=
  if n ≤ 308 then
    let y := x * powerOfTen n
    if y.isInf then none else some y
  else if x == 0.0 then some x
  else none

/-- The number `significand * 10 ^ exponent`. -/
def scaled? (significand : UInt64) (exponent : Int) : Option Float :=
  if 0 ≤ exponent then scaleUp? significand.toFloat exponent.toNat
  else some (scaleDown significand.toFloat (-exponent).toNat)

end Correlation
