/-
The shortest decimal that reads back as a given double. The reals that round
to the double form an interval around it, with its ends when its significand
is even. On the grid of n digit decimals the two neighbours of the double are
tried, for n from one to seventeen; the first grid with a neighbour in the
interval has the shortest decimals, and of two neighbours the nearer is taken.
-/
import CacheScript.Double

namespace CacheScript

/-- The decimal `d₁.d₂d₃… * 10 ^ exponent`. -/
structure Decimal where
  digits : List Char
  exponent : Int
deriving DecidableEq

/-- Which of two equally near decimals is taken. -/
inductive Tie where
  | toEven
  | up

namespace Double

/-- A positive double and the ends of its interval, over one denominator. -/
structure Interval where
  low : Nat
  value : Nat
  high : Nat
  denominator : Nat
  closed : Bool

/-- The interval of the reals that round to a double. Below a power of two the
doubles are twice as dense, so the lower end is nearer there. -/
def interval (d : Double) : Interval :=
  let m := d.significand
  let unit := 1 <<< d.shift
  let below := if m = hiddenBit ∧ 0 < d.shift then unit else 2 * unit
  { low := 4 * m * unit - below
    value := 4 * m * unit
    high := 4 * m * unit + 2 * unit
    denominator := 1 <<< 1076
    closed := m % 2 == 0 }

/-- The number of decimal digits. -/
def digitCount (n : Nat) : Nat := (Nat.toDigits 10 n).length

/-- The `e` with `10 ^ e ≤ num / den < 10 ^ (e + 1)`, for positive numbers. -/
def decimalExponent (num den : Nat) : Int :=
  if den ≤ num then (digitCount (num / den) : Int) - 1
  else
    let gap := digitCount den - digitCount num
    if den ≤ num * Nat.pow 10 gap then -(gap : Int) else -(gap : Int) - 1

/-- The nearest point of the grid of multiples of `10 ^ grid` in the interval,
as a multiple, if there is one. -/
def Interval.gridPoint (i : Interval) (tie : Tie) (grid : Int) : Option Nat :=
  let step := i.denominator * Nat.pow 10 grid.toNat
  let scale := Nat.pow 10 (-grid).toNat
  let value := i.value * scale
  let lower := value / step
  let inside (n : Nat) : Bool :=
    if i.closed then i.low * scale ≤ n * step && n * step ≤ i.high * scale
    else i.low * scale < n * step && n * step < i.high * scale
  if value % step = 0 then some lower
  else
    match inside lower, inside (lower + 1) with
    | true, true =>
      if 2 * value < (2 * lower + 1) * step then some lower
      else if (2 * lower + 1) * step < 2 * value then some (lower + 1)
      else match tie with
        | .toEven => some (lower + lower % 2)
        | .up => some (lower + 1)
    | true, false => some lower
    | false, true => some (lower + 1)
    | false, false => none

/-- A positive multiple of `10 ^ grid` as a decimal without trailing zeros. -/
def decimalOf (multiple : Nat) (grid : Int) : Decimal :=
  let digits := Nat.toDigits 10 multiple
  { digits := (digits.reverse.dropWhile (· == '0')).reverse
    exponent := grid + digits.length - 1 }

/-- The shortest decimal that rounds to a double's magnitude. -/
def shortest (tie : Tie) (d : Double) : Decimal :=
  if d.code = 0 then ⟨['0'], 0⟩
  else
    let i := d.interval
    let top := decimalExponent i.value i.denominator
    let found := (List.range 17).findSome? fun (k : Nat) =>
      let grid := top - k
      (i.gridPoint tie grid).map (decimalOf · grid)
    found.getD (decimalOf (i.value / i.denominator) 0)

end Double

end CacheScript
