/-
Double-precision numbers, exactly. A finite one is a sign and the code of its
magnitude: codes count the magnitudes upwards from zero, so rounding up is
adding one to a code, whatever the binade.

All rounding goes through `nearestCode`, the code of the double nearest to a
quotient of natural numbers, a half going to the even code.
-/

namespace CacheScript

/-- The leading bit of a significand, `2 ^ 52`, which codes leave out. -/
def hiddenBit : Nat := 1 <<< 52

/-- The first code that is too large for a finite number. -/
def infinityCode : Nat := 2047 * hiddenBit

/-- A finite double-precision number. -/
structure Double where
  negative : Bool
  code : Nat
  code_lt : code < infinityCode
deriving DecidableEq

namespace Double

/-- Zero, with a sign. -/
def zero (negative : Bool) : Double := ⟨negative, 0, by decide⟩

/-- The integer `m` of the magnitude `m * 2 ^ shift / 2 ^ 1074`. -/
def significand (d : Double) : Nat :=
  if d.code < hiddenBit then d.code else hiddenBit + d.code % hiddenBit

/-- The `shift` of the magnitude `m * 2 ^ shift / 2 ^ 1074`. -/
def shift (d : Double) : Nat :=
  d.code / hiddenBit - 1

/-- Equality of the numbers: the two zeros are equal. -/
def equal (a b : Double) : Bool :=
  a.code == b.code && (a.negative == b.negative || a.code == 0)

/-- A quotient rounded to the nearest integer, a half to the even one. -/
def roundDiv (num den : Nat) : Nat :=
  let whole := num / den
  let rest := num % den
  if 2 * rest < den then whole
  else if den < 2 * rest then whole + 1
  else whole + whole % 2

/-- The code of the double nearest to `num / den`; `infinityCode` or more when
that is out of range. -/
def nearestCode (num den : Nat) : Nat :=
  let scaled := num <<< 1074
  let shift := (scaled / den).log2 + 1 - 53
  shift * hiddenBit + roundDiv scaled (den <<< shift)

/-- The number of a code, if it is finite. -/
def ofCode? (negative : Bool) (code : Nat) : Option Double :=
  if h : code < infinityCode then some ⟨negative, code, h⟩ else none

/-- The magnitude, in units of the smallest one. -/
def units (d : Double) : Nat :=
  d.significand <<< d.shift

/-- The double nearest to a natural number, or none when that is out of
range. -/
def ofNat? (n : Nat) : Option Double :=
  ofCode? false (nearestCode n 1)

/-- The double nearest to a product, or none when that is out of range. -/
def mul? (a b : Double) : Option Double :=
  ofCode? (a.negative != b.negative) (nearestCode (a.units * b.units) (1 <<< 2148))

/-- The double nearest to a quotient, or none when that is out of range. -/
def div? (a b : Double) : Option Double :=
  ofCode? (a.negative != b.negative) (nearestCode a.units b.units)

theorem equal_self (d : Double) : d.equal d = true := by
  simp [equal]

end Double

/-- A double-precision number that may also be infinite or not a number. -/
inductive ExtendedDouble where
  | finite (number : Double)
  | infinite (negative : Bool)
  | nan
deriving DecidableEq

namespace ExtendedDouble

/-- What stands for a nearest double: that double, or infinity with a sign when
there is none in range. -/
def ofNearest (negative : Bool) : Option Double → ExtendedDouble
  | some d => finite d
  | none => infinite negative

/-- The double nearest to a natural number. -/
def ofNat (n : Nat) : ExtendedDouble :=
  ofNearest false (Double.ofNat? n)

end ExtendedDouble

end CacheScript
