/-
Written doubles. Both written forms here have the shortest digits; they
differ in where positional notation ends, in whether a whole number keeps its
point, and in which of two equally near decimals they take.
-/
import CacheScript.Double.Shortest

namespace CacheScript

/-- How a decimal is laid out. -/
structure Layout where
  tie : Tie
  /-- The exponents that are written without one. -/
  positional : Int → Bool
  /-- What follows the digits of a whole number in positional notation. -/
  wholeMark : List Char

namespace Layout

/-- Numbers in a document: positional from `0.00001` up to sixteen digits,
always with a point, a tie to the even digit. -/
def document : Layout where
  tie := .toEven
  positional e := -5 ≤ e && e ≤ 15
  wholeMark := ['.', '0']

/-- Numbers in running text: never an exponent, no point after a whole
number, a tie to the upper digit. -/
def text : Layout where
  tie := .up
  positional _ := true
  wholeMark := []

/-- A decimal in positional notation. -/
def writePositional (layout : Layout) (d : Decimal) : List Char :=
  if d.exponent < 0 then
    '0' :: '.' :: List.replicate (-d.exponent - 1).toNat '0' ++ d.digits
  else
    let whole := d.exponent.toNat + 1
    if d.digits.length ≤ whole then
      d.digits ++ List.replicate (whole - d.digits.length) '0' ++ layout.wholeMark
    else d.digits.take whole ++ '.' :: d.digits.drop whole

/-- A decimal with an exponent, whose sign is always written. -/
def writeScientific (d : Decimal) : List Char :=
  let fraction := match d.digits.drop 1 with
    | [] => []
    | rest => '.' :: rest
  d.digits.take 1 ++ fraction ++ 'e' :: (if d.exponent < 0 then '-' else '+') ::
    Nat.toDigits 10 d.exponent.natAbs

/-- A double, written. -/
def write (layout : Layout) (d : Double) : List Char :=
  let decimal := d.shortest layout.tie
  let magnitude :=
    if layout.positional decimal.exponent then layout.writePositional decimal
    else writeScientific decimal
  if d.negative then '-' :: magnitude else magnitude

end Layout

/-- A number in running text. -/
def ExtendedDouble.text : ExtendedDouble → String
  | .finite d => String.ofList (Layout.text.write d)
  | .infinite false => "inf"
  | .infinite true => "-inf"
  | .nan => "NaN"

end CacheScript
