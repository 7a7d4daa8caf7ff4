/-
Doubles from scaled integers. The integer is rounded to a double, and every
scaling by a power of ten, which is a double itself, rounds once more. For
fifteen digits and powers up to `10 ^ 22` nothing but the last rounding is
felt and the result is the nearest double; beyond that it may be a neighbour
of it.
-/
import CacheScript.Double

namespace CacheScript.Double

/-- The largest power of ten that is a double. -/
def maxPower : Nat := 308

/-- The double nearest to a power of ten, or none when that is out of range. -/
def powerOfTen? (power : Nat) : Option Double :=
  ofNat? (Nat.pow 10 power)

/-- Divide by the largest power of ten a number of times, and then by a last
one. What has become zero stays zero. -/
def divideOut? (last : Nat) : Nat → Double → Option Double
  | 0, d => (powerOfTen? last).bind d.div?
  | times + 1, d =>
    if d.code = 0 then some d
    else ((powerOfTen? maxPower).bind d.div?).bind (divideOut? last times)

/-- Divide by a power of ten. -/
def scaleDown? (d : Double) (power : Nat) : Option Double :=
  let times := (power - 1) / maxPower
  divideOut? (power - times * maxPower) times d

/-- Multiply by a power of ten; none when that is out of range. -/
def scaleUp? (d : Double) (power : Nat) : Option Double :=
  if power ≤ maxPower then (powerOfTen? power).bind d.mul?
  else if d.code = 0 then some d
  else none

/-- The double of `significand * 10 ^ exponent`; none when that is out of
range. -/
def ofScaled? (significand : Nat) (exponent : Int) : Option Double := do
  let d ← ofNat? significand
  if 0 ≤ exponent then d.scaleUp? exponent.toNat else d.scaleDown? (-exponent).toNat

end CacheScript.Double
