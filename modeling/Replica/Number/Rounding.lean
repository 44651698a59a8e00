import Replica.Number.Basic

/-!
# Rounding to the nearest number

A positive ratio is rounded to the nearest binary64 number, and a tie goes to the number whose
last bit is zero. Decimal texts and integers are read through this one rule.
-/

namespace Replica.Number

/-- The quotient rounded to the nearest natural number, ties to the even one. -/
def roundHalfEven (numerator denominator : Nat) : Nat :=
  let quotient := numerator / denominator
  let twice := 2 * (numerator % denominator)
  if twice < denominator then quotient
  else if denominator < twice then quotient + 1
  else quotient + quotient % 2

/-- The significand of the ratio counted in units of `2 ^ (step - 1074)`, before rounding, as a
numerator and a denominator. -/
def scaled (numerator denominator step : Nat) : Nat × Nat :=
  if 1074 ≤ step then (numerator, denominator * Nat.pow 2 (step - 1074))
  else (numerator * Nat.pow 2 (1074 - step), denominator)

/-- The smallest step at which the significand of the ratio stays below `2 ^ 53`. -/
def stepFor (numerator denominator : Nat) : Nat :=
  if numerator = 0 then 0
  else
    let guess := numerator.log2 + 1074 - denominator.log2 - 53
    let (top, bottom) := scaled numerator denominator guess
    if top / bottom < 2 * hiddenBit then guess else guess + 1

/-- The magnitude bits of the number nearest to a ratio. A significand that rounds up to
`2 ^ 53` carries into the exponent by itself. -/
def nearestBits (numerator denominator : Nat) : Nat :=
  let step := stepFor numerator denominator
  let (top, bottom) := scaled numerator denominator step
  step * hiddenBit + roundHalfEven top bottom

def nearest? (negative : Bool) (numerator denominator : Nat) : Option Number :=
  if h : nearestBits numerator denominator < infinityBits then
    some ⟨negative, nearestBits numerator denominator, h⟩
  else none

/-- The number nearest to `digits * 10 ^ exponent`. Exponents far outside the range of binary64
are decided by the count of digits, before any power is formed. -/
def ofDecimal? (negative : Bool) (digits : Nat) (exponent : Int) : Option Number :=
  let places : Int := (Nat.toDigits 10 digits).length + exponent
  if digits = 0 ∨ places < -330 then some { zero with negative := negative }
  else if 310 < places then none
  else if 0 ≤ exponent then nearest? negative (digits * Nat.pow 10 exponent.toNat) 1
  else nearest? negative digits (Nat.pow 10 (-exponent).toNat)

def ofInt? (n : Int) : Option Number :=
  nearest? (decide (n < 0)) n.natAbs 1

end Replica.Number
