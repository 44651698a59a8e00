import Mathlib.Algebra.Order.Field.Power
import Mathlib.Tactic.FieldSimp
import Mathlib.Tactic.Linarith
import Mathlib.Tactic.NormNum
import Mathlib.Tactic.Positivity
import Mathlib.Tactic.Ring
import Replica.Json.Reader
import Replica.Number.Shortest

/-!
# Decimal digits

Digits are read as a natural number. The digits of a natural number are read as that number, start
with a zero only if they are a lone zero, and their count tells the number's size.
-/

namespace Replica

/-! ## The number that digits write -/

private theorem Json.naturalOf_eq (digits : List Char) :
    naturalOf digits = Nat.ofDigitChars 10 digits 0 :=
  Nat.ofDigitChars_eq_foldl.symm

@[simp]
theorem Json.naturalOf_toDigits (n : Nat) :
    naturalOf (Nat.toDigits 10 n) = n := by
  rw [naturalOf_eq, Nat.ofDigitChars_ten_toDigits]

theorem Json.naturalOf_append (upper lower : List Char) :
    naturalOf (upper ++ lower) =
      10 ^ lower.length * naturalOf upper + naturalOf lower := by
  rw [naturalOf_eq, naturalOf_eq, naturalOf_eq, Nat.ofDigitChars_append,
    Nat.ofDigitChars_eq_ofDigitChars_zero]

@[simp]
theorem Json.naturalOf_zeros (count : Nat) :
    naturalOf (List.replicate count '0') = 0 := by
  rw [naturalOf_eq, Nat.ofDigitChars_replicate_zero, Nat.mul_zero]

namespace Number

/-- Only zero is written with a zero in front. -/
theorem head?_toDigits
    {n : Nat} (positive : 0 < n) : (Nat.toDigits 10 n).head? ≠ some '0' := by
  induction n using Nat.strongRecOn with
  | ind n inductionHypothesis =>
      rw [Nat.toDigits_eq_if (by omega)]
      split
      · rw [List.head?_cons, ne_eq, Option.some_inj, Nat.digitChar_eq_zero]
        omega
      · have smaller := inductionHypothesis (n / 10) (by omega) (by omega)
        rwa [List.head?_append_of_ne_nil _ Nat.toDigits_ne_nil]

theorem lt_pow_length_toDigits (n : Nat) :
    n < 10 ^ (Nat.toDigits 10 n).length :=
  (Nat.length_toDigits_le_iff (by omega)
    (List.length_pos_of_ne_nil Nat.toDigits_ne_nil)).mp (Nat.le_refl _)

theorem pow_length_toDigits_le
    {n : Nat} (positive : 0 < n) :
    10 ^ ((Nat.toDigits 10 n).length - 1) ≤ n := by
  by_contra below
  have short := not_le.mp below
  rcases Nat.eq_zero_or_pos ((Nat.toDigits 10 n).length - 1) with one | more
  · rw [one] at short
    omega
  · have fewer := (Nat.length_toDigits_le_iff (by omega) more).mpr short
    omega

private theorem lt_pow_digitCount (n : Nat) : n < 10 ^ digitCount n := by
  unfold digitCount
  split
  · omega
  · exact lt_pow_length_toDigits n

/-- The decimal point stands high enough: the ratio has a digit directly behind it. -/
theorem pow_decimalPoint_le
    {numerator denominator : Nat} (nonzero : 0 < numerator)
    (positive : 0 < denominator) :
    (10 : ℚ) ^ (decimalPoint numerator denominator - 1) ≤
      numerator / denominator := by
  have positive' : (0 : ℚ) < denominator := by exact_mod_cast positive
  unfold decimalPoint
  split
  · rename_i large
    have whole : 0 < numerator / denominator := Nat.div_pos large positive
    have count : digitCount (numerator / denominator) =
        (Nat.toDigits 10 (numerator / denominator)).length := if_neg whole.ne'
    have some : 0 < digitCount (numerator / denominator) := by
      rw [count]
      exact List.length_pos_of_ne_nil Nat.toDigits_ne_nil
    have power : ((digitCount (numerator / denominator) : Nat) : Int) - 1 =
        ((digitCount (numerator / denominator) - 1 : Nat) : Int) := by
      omega
    have bound := pow_length_toDigits_le whole
    rw [← count] at bound
    rw [power, zpow_natCast, le_div_iff₀ positive']
    have scaled := (Nat.le_div_iff_mul_le positive).mp bound
    exact_mod_cast scaled
  · rename_i small
    have bound := lt_pow_digitCount ((denominator - 1) / numerator)
    rw [Nat.div_lt_iff_lt_mul nonzero] at bound
    have scaled : denominator ≤
        10 ^ digitCount ((denominator - 1) / numerator) * numerator := by
      omega
    generalize digitCount ((denominator - 1) / numerator) = count at scaled ⊢
    have power : (1 : Int) - (count : Int) - 1 = -(count : Int) := by omega
    have unit : (0 : ℚ) < 10 ^ count := by positivity
    rw [power, zpow_neg, zpow_natCast, le_div_iff₀ positive', inv_mul_le_iff₀ unit]
    exact_mod_cast scaled

end Number

end Replica
