import Replica.Number.Basic

/-!
# Shortest decimal digits

The decimal text of a number uses the fewest digits that still read back as that number. The
search below takes one digit more at each turn and looks at the two neighbours of the value on
the decimal grid with that many digits; the first grid with a neighbour in the number's rounding
interval gives the digits.
-/

namespace Replica.Number

/-- How a value halfway between two neighbours on the decimal grid is resolved. -/
inductive Halfway
  | even
  | away
  deriving DecidableEq, Repr

/-- Decimal digits without trailing zeros; the value is `0.digits * 10 ^ point`. -/
structure Digits where
  digits : List Char
  /-- Where the decimal point stands, counted from the front of the digits. -/
  point : Int
  deriving DecidableEq, Repr

/-- The count of decimal digits of a natural number, none for zero. -/
def digitCount (n : Nat) : Nat :=
  if n = 0 then 0 else (Nat.toDigits 10 n).length

/-- The exponent `k` with `10 ^ (k - 1) ≤ numerator / denominator < 10 ^ k`. -/
def decimalPoint (numerator denominator : Nat) : Int :=
  if denominator ≤ numerator then digitCount (numerator / denominator)
  else 1 - (digitCount ((denominator - 1) / numerator) : Int)

/-- The reals that round to a number: `low` and `high` over the denominator shared with the
value, and whether the two ends belong. -/
structure Interval where
  value : Nat
  low : Nat
  high : Nat
  denominator : Nat
  closed : Bool

/-- The rounding interval of a number, in quarters of its last place. Below a power of two the
numbers lie twice as dense, so there the interval reaches down only half as far. -/
def interval (x : Number) : Interval :=
  let m := x.significand
  let below := if m = hiddenBit ∧ 0 < x.step then 1 else 2
  let scale (n : Nat) := if 1074 ≤ x.step then n * Nat.pow 2 (x.step - 1074) else n
  { value := scale (4 * m)
    low := scale (4 * m - below)
    high := scale (4 * m + 2)
    denominator := if 1074 ≤ x.step then 4 else 4 * Nat.pow 2 (1074 - x.step)
    closed := m % 2 = 0 }

/-- Multiplies all of an interval by `10 ^ shift`. -/
def Interval.shift (i : Interval) (shift : Int) : Interval :=
  if 0 ≤ shift then
    let factor := Nat.pow 10 shift.toNat
    { i with value := i.value * factor, low := i.low * factor, high := i.high * factor }
  else { i with denominator := i.denominator * Nat.pow 10 (-shift).toNat }

def Interval.contains (i : Interval) (n : Nat) : Bool :=
  let scaled := n * i.denominator
  if i.closed then i.low ≤ scaled && scaled ≤ i.high else i.low < scaled && scaled < i.high

/-- The natural number in the interval that is nearest to its value, among the two neighbours of
the value. -/
def Interval.choose? (i : Interval) (halfway : Halfway) : Option Nat :=
  let down := i.value / i.denominator
  let up := down + 1
  let twice := 2 * (i.value % i.denominator)
  let nearer :=
    if twice < i.denominator then down
    else if i.denominator < twice then up
    else match halfway with
      | .even => if down % 2 = 0 then down else up
      | .away => up
  if i.contains nearer then some nearer
  else if i.contains down then some down
  else if i.contains up then some up
  else none

def significantDigits (n : Nat) : List Char :=
  ((Nat.toDigits 10 n).reverse.dropWhile (· == '0')).reverse

/-- Tries grids of `count` digits and more, at most `turns` of them. The last grid is taken
without a test: seventeen digits always read back. -/
def searchDigits (i : Interval) (point : Int) (halfway : Halfway) : Nat → Nat → Nat × Int
  | count, turns =>
    let grid := i.shift (count - point)
    match grid.choose? halfway, turns with
    | some n, _ => (n, point - count)
    | none, 0 => (grid.value / grid.denominator, point - count)
    | none, more + 1 => searchDigits i point halfway (count + 1) more

/-- The fewest digits that read back as the absolute value of a nonzero number. -/
def shortestDigits (x : Number) (halfway : Halfway) : Digits :=
  let i := x.interval
  let (n, exponent) := searchDigits i (decimalPoint i.value i.denominator) halfway 1 16
  ⟨significantDigits n, exponent + (Nat.toDigits 10 n).length⟩

end Replica.Number
