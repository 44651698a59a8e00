/-!
# Finite binary64 numbers

A number is stored as its sign and the 63 bits below it, read as a natural number. Finite numbers
of one sign are then ordered as those naturals are, so the order of numbers is the order of
integers, and the two zeros are equal.
-/

namespace Replica

/-- The first magnitude that stands for no finite number: the bits of infinity. -/
def Number.infinityBits : Nat := 0x7FF0000000000000

/-- A finite binary64 number. -/
structure Number where
  negative : Bool
  /-- The 63 bits below the sign: eleven of exponent over fifty-two of fraction. -/
  magnitude : Nat
  finite : magnitude < Number.infinityBits

namespace Number

/-- The unit of the exponent field, and the bit that normal significands have above the fraction:
`2 ^ 52`. -/
def hiddenBit : Nat := 0x10000000000000

def zero : Number := ⟨false, 0, by decide⟩

/-- The integer whose order is the order of numbers. Both zeros have the key 0. -/
def orderKey (x : Number) : Int :=
  if x.negative then -(x.magnitude : Int) else x.magnitude

instance : Ord Number where
  compare x y := compare x.orderKey y.orderKey

/-- The significand: the natural number `m` for which the number is `m * 2 ^ (step - 1074)`. -/
def significand (x : Number) : Nat :=
  if x.magnitude < hiddenBit then x.magnitude else x.magnitude % hiddenBit + hiddenBit

/-- The exponent field, with the subnormal numbers counted to the lowest normal exponent. The
number is `significand * 2 ^ (step - 1074)`. -/
def step (x : Number) : Nat :=
  x.magnitude / hiddenBit - 1

def ratio (x : Number) : Nat × Nat :=
  if 1074 ≤ x.step then (x.significand * Nat.pow 2 (x.step - 1074), 1)
  else (x.significand, Nat.pow 2 (1074 - x.step))

def natAbs? (x : Number) : Option Nat :=
  let (numerator, denominator) := x.ratio
  if numerator % denominator = 0 then some (numerator / denominator) else none

/-- The value, if it is an integer. Both zeros give 0. -/
def toInt? (x : Number) : Option Int :=
  x.natAbs?.map fun n => if x.negative then -(n : Int) else n

end Number

end Replica
