/-
Reading doubles. A written double is a sign, which may be left out, and then
either digits, perhaps with a point and an exponent, or a word in letters of
any case. Leading zeros do not count, and a point needs digits on one side
only. The result is the nearest double; what is out of range is infinite.
-/
import CacheScript.Double

namespace CacheScript

/-- The double nearest to `mantissa * 10 ^ exponent`, or none when that is out
of range. Exponents far out are settled by the number of binary digits, which
is at least the number of decimal digits. -/
def Double.ofDecimal? (negative : Bool) (mantissa : Nat) (exponent : Int) : Option Double :=
  if mantissa = 0 then some (zero negative)
  else if 400 ≤ exponent then none
  else if exponent + (mantissa.log2 + 1) < -400 then some (zero negative)
  else if 0 ≤ exponent then ofCode? negative (nearestCode (mantissa * Nat.pow 10 exponent.toNat) 1)
  else ofCode? negative (nearestCode mantissa (Nat.pow 10 (-exponent).toNat))

namespace ExtendedDouble

/-- Whether there is a minus sign at the front, and what follows the sign. -/
def readSign : List Char → Bool × List Char
  | '-' :: cs => (true, cs)
  | '+' :: cs => (false, cs)
  | cs => (false, cs)

/-- The integer that digits write, of which there is at least one. -/
def natural? (cs : List Char) : Option Nat :=
  if cs.isEmpty || !cs.all Char.isDigit then none else some (Nat.ofDigitChars 10 cs 0)

/-- The exponent that a text ends in, zero when the text is empty. -/
def exponent? : List Char → Option Int
  | [] => some 0
  | c :: cs =>
    if c.toLower = 'e' then
      let (negative, cs) := readSign cs
      (natural? cs).map fun n => if negative then -n else n
    else none

/-- The digits after a point at the front, and what follows them; no digits when
there is no point. -/
def readPlaces : List Char → List Char × List Char
  | '.' :: cs => cs.span Char.isDigit
  | cs => ([], cs)

/-- The number of a text of digits. -/
def ofDigits? (negative : Bool) (cs : List Char) : Option ExtendedDouble := do
  let (whole, cs) := cs.span Char.isDigit
  let (places, cs) := readPlaces cs
  let mantissa ← natural? (whole ++ places)
  let exponent ← exponent? cs
  some (ofNearest negative (Double.ofDecimal? negative mantissa (exponent - places.length)))

/-- The number of a word. -/
def ofWord? (negative : Bool) (cs : List Char) : Option ExtendedDouble :=
  match String.ofList (cs.map Char.toLower) with
  | "inf" | "infinity" => some (infinite negative)
  | "nan" => some nan
  | _ => none

/-- The number that a text writes. -/
def parse? (s : String) : Option ExtendedDouble :=
  let (negative, cs) := readSign s.toList
  (ofWord? negative cs).or (ofDigits? negative cs)

end ExtendedDouble

end CacheScript
