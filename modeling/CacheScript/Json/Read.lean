/-
Reading documents. A raw document is refused when it nests arrays and objects
more than 127 deep, holds a number out of the range of doubles or a string
with half of a surrogate pair; of members with one name the last counts.
-/
import CacheScript.Double.Scaled
import CacheScript.Json.Raw

namespace CacheScript

/-- Append digits to an integer for as long as it fits 64 bits: the integer,
and how many digits went into it. -/
def absorb (n : Nat) : List Char → Nat × Nat
  | [] => (n, 0)
  | c :: cs =>
    let next := n * 10 + (c.toNat - '0'.toNat)
    if next < 0x10000000000000000 then
      let (n, count) := absorb next cs
      (n, count + 1)
    else (n, 0)

/-- The double that a numeral writes. The digits before the point and then
those after it go into an integer of 64 bits, each as far as they fit; those
before the point that do not fit still count as places, those after it do not
count at all. -/
def Double.ofNumeral? (n : Numeral) : Option Double :=
  let (whole, taken) := absorb 0 n.whole
  let (significand, places) := absorb whole (n.fraction.getD [])
  let exponent := n.power.getD 0 + (n.whole.length - taken : Nat) - places
  (ofScaled? significand exponent).map fun d => { d with negative := n.negative }

/-- Whether a numeral has neither a fraction nor an exponent. -/
def Numeral.isIntegral (n : Numeral) : Bool :=
  n.fraction.isNone && n.power.isNone

/-- The number that a numeral writes. Integers are exact as long as 64 bits
hold them; minus zero is a double. -/
def Number.ofNumeral? (n : Numeral) : Option Number :=
  let magnitude := Nat.ofDigitChars 10 n.whole 0
  if h : n.isIntegral = true ∧ n.negative = false ∧ magnitude < 0x10000000000000000 then
    some (.int magnitude (by omega))
  else if h : n.isIntegral = true ∧ n.negative = true ∧ 0 < magnitude ∧ magnitude ≤ 0x8000000000000000 then
    some (.int (-magnitude) (by omega))
  else (Double.ofNumeral? n).map .double

/-- How deep the arrays and objects of a text may be nested. -/
def maxDepth : Nat := 127

namespace Json

mutual
/-- The document of a raw one, when it nests at most `depth` deep. -/
def ofRaw? (depth : Nat) : Raw → Option Json
  | .null => some null
  | .bool b => some (bool b)
  | .number n => (Number.ofNumeral? n).map num
  | .text s => s.map str
  | .array items =>
    match depth with
    | 0 => none
    | depth + 1 => (itemsOfRaw? depth items).map arr
  | .object members =>
    match depth with
    | 0 => none
    | depth + 1 => (membersOfRaw? depth members).map fun members => obj (Dict.ofList members)

/-- The items of an array. -/
def itemsOfRaw? (depth : Nat) : List Raw → Option (List Json)
  | [] => some []
  | item :: items => do
    let item ← ofRaw? depth item
    let items ← itemsOfRaw? depth items
    some (item :: items)

/-- The members of an object, as written. -/
def membersOfRaw? (depth : Nat) : List (Option String × Raw) → Option (List (String × Json))
  | [] => some []
  | (name, item) :: members => do
    let name ← name
    let item ← ofRaw? depth item
    let members ← membersOfRaw? depth members
    some ((name, item) :: members)
end

/-- The document that a text writes. -/
def parse? (s : String) : Option Json :=
  (Raw.parse? s).bind (ofRaw? maxDepth)

end Json

end CacheScript
