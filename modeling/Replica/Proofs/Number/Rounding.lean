import Mathlib.Data.Nat.Cast.Field
import Replica.Number.Rounding
import Replica.Proofs.Number.Value

/-!
# Rounding finds the nearest number

The bits that rounding finds are those of the number in whose cell the ratio lies. A number is in
its own cell, so rounding its value gives it back.
-/

namespace Replica.Number

/-- A ratio, counted in least numbers. -/
def count (numerator denominator : Nat) : ℚ :=
  (numerator : ℚ) / denominator / leastUnit

/-! ## Rounding a quotient -/

/-- A natural number is nearest to a ratio, and even if another one is as near. -/
structure Nearest (rounded : Nat) (ratio : ℚ) : Prop where
  above : 2 * (rounded : ℚ) - 1 ≤ 2 * ratio
  below : 2 * ratio ≤ 2 * (rounded : ℚ) + 1
  inside : rounded % 2 = 1 →
    2 * (rounded : ℚ) - 1 < 2 * ratio ∧ 2 * ratio < 2 * (rounded : ℚ) + 1

/-- What is left over is no more than half of the denominator, and less if the result is odd. -/
theorem nearest_of_error
    {numerator denominator error : ℚ} (positive : 0 < denominator)
    {rounded : Nat} (split : numerator = rounded * denominator + error)
    (above : -denominator ≤ 2 * error) (below : 2 * error ≤ denominator)
    (inside : rounded % 2 = 1 →
      -denominator < 2 * error ∧ 2 * error < denominator) :
    Nearest rounded (numerator / denominator) := by
  have ratio : numerator / denominator = rounded + error / denominator := by
    rw [split]
    field_simp
  have scaled : 2 * (error / denominator) = 2 * error / denominator := by
    ring
  have least : -1 ≤ 2 * error / denominator := by
    rw [le_div_iff₀ positive]
    linarith
  have most : 2 * error / denominator ≤ 1 := by
    rw [div_le_iff₀ positive]
    linarith
  rw [ratio]
  refine ⟨by linarith, by linarith, fun odd => ?_⟩
  obtain ⟨aboveHalf, belowHalf⟩ := inside odd
  have more : -1 < 2 * error / denominator := by
    rw [lt_div_iff₀ positive]
    linarith
  have less : 2 * error / denominator < 1 := by
    rw [div_lt_iff₀ positive]
    linarith
  exact ⟨by linarith, by linarith⟩

private theorem nearest_roundHalfEven
    (numerator : Nat) {denominator : Nat} (positive : 0 < denominator) :
    Nearest (roundHalfEven numerator denominator)
      (numerator / denominator) := by
  have whole : (numerator : ℚ) =
      (numerator / denominator : Nat) * denominator +
        (numerator % denominator : Nat) := by
    exact_mod_cast (Nat.div_add_mod' numerator denominator).symm
  have low : (0 : ℚ) ≤ (numerator % denominator : Nat) := Nat.cast_nonneg _
  have high : ((numerator % denominator : Nat) : ℚ) < denominator := by
    exact_mod_cast Nat.mod_lt numerator positive
  have positive : (0 : ℚ) < denominator := by exact_mod_cast positive
  unfold roundHalfEven
  dsimp only
  generalize numerator / denominator = quotient at whole ⊢
  generalize numerator % denominator = rest at whole low high ⊢
  have next : (numerator : ℚ) =
      (quotient + 1 : Nat) * denominator + (rest - denominator) := by
    rw [whole]
    push_cast
    ring
  split
  · rename_i less
    have less : 2 * (rest : ℚ) < denominator := by exact_mod_cast less
    exact nearest_of_error positive whole (by linarith) (by linarith)
      fun _ => ⟨by linarith, by linarith⟩
  split
  · rename_i more
    have more : (denominator : ℚ) < 2 * rest := by exact_mod_cast more
    exact nearest_of_error positive next (by linarith) (by linarith)
      fun _ => ⟨by linarith, by linarith⟩
  · rename_i notLess notMore
    have tie : 2 * (rest : ℚ) = denominator := by
      exact_mod_cast Nat.le_antisymm (Nat.not_lt.mp notMore)
        (Nat.not_lt.mp notLess)
    rcases Nat.mod_two_eq_zero_or_one quotient with even | odd
    · rw [even]
      exact nearest_of_error positive whole (by linarith) (by linarith)
        fun odd => by omega
    · rw [odd]
      exact nearest_of_error positive next (by linarith) (by linarith)
        fun odd => by omega

/-! ## The step -/

private theorem scaled_spec
    (numerator : Nat) {denominator : Nat} (positive : 0 < denominator)
    (step : Nat) :
    0 < (scaled numerator denominator step).2 ∧
      ((scaled numerator denominator step).1 : ℚ) /
          (scaled numerator denominator step).2 =
        count numerator denominator / 2 ^ step := by
  have nonzero : (denominator : ℚ) ≠ 0 := by exact_mod_cast positive.ne'
  have unit : (2 : ℚ) ^ step ≠ 0 := by positivity
  have least := leastUnit_pos.ne'
  have ratio : count numerator denominator / 2 ^ step =
      numerator / denominator / (2 ^ step * leastUnit) := by
    rw [count]
    field_simp
  rw [ratio]
  unfold scaled
  split
  · rename_i large
    refine ⟨Nat.mul_pos positive (Nat.pow_pos (by decide)), ?_⟩
    rw [pow_of_large large, Nat.pow_eq]
    push_cast
    field_simp
  · rename_i small
    refine ⟨positive, ?_⟩
    rw [pow_of_small small, Nat.pow_eq]
    push_cast
    field_simp

/-- A ratio lies between the powers of two that the lengths of its parts give. -/
theorem count_between
    {numerator denominator : Nat} (nonzero : 0 < numerator)
    (positive : 0 < denominator) :
    (2 : ℚ) ^ (numerator.log2 + 1074) <
        count numerator denominator * 2 ^ (denominator.log2 + 1) ∧
      count numerator denominator * 2 ^ denominator.log2 <
        2 ^ (numerator.log2 + 1 + 1074) := by
  have positive' : (0 : ℚ) < denominator := by exact_mod_cast positive
  have value : count numerator denominator * denominator =
      numerator * 2 ^ 1074 := by
    rw [count, leastUnit]
    field_simp
  have countPositive : 0 < count numerator denominator := by
    have : (0 : ℚ) < numerator := by exact_mod_cast nonzero
    unfold count leastUnit
    positivity
  have numeratorAbove : (2 : ℚ) ^ numerator.log2 ≤ numerator := by
    exact_mod_cast Nat.log2_self_le nonzero.ne'
  have numeratorBelow : (numerator : ℚ) < 2 ^ (numerator.log2 + 1) := by
    exact_mod_cast Nat.lt_log2_self
  have denominatorAbove : (2 : ℚ) ^ denominator.log2 ≤ denominator := by
    exact_mod_cast Nat.log2_self_le positive.ne'
  have denominatorBelow : (denominator : ℚ) < 2 ^ (denominator.log2 + 1) := by
    exact_mod_cast Nat.lt_log2_self
  constructor
  · calc (2 : ℚ) ^ (numerator.log2 + 1074)
        = 2 ^ numerator.log2 * 2 ^ 1074 := pow_add 2 _ _
      _ ≤ numerator * 2 ^ 1074 := by gcongr
      _ = count numerator denominator * denominator := value.symm
      _ < count numerator denominator * 2 ^ (denominator.log2 + 1) := by
        gcongr
  · calc count numerator denominator * 2 ^ denominator.log2
        ≤ count numerator denominator * denominator := by gcongr
      _ = numerator * 2 ^ 1074 := value
      _ < 2 ^ (numerator.log2 + 1) * 2 ^ 1074 := by gcongr
      _ = 2 ^ (numerator.log2 + 1 + 1074) := (pow_add 2 _ _).symm

/-- The guess is right or one too low. -/
theorem guess_spec
    {numerator denominator : Nat} (nonzero : 0 < numerator)
    (positive : 0 < denominator) :
    let guess := numerator.log2 + 1074 - denominator.log2 - 53
    count numerator denominator < 2 ^ guess * (4 * hiddenBit) ∧
      (guess = 0 ∨
        (2 : ℚ) ^ guess * hiddenBit ≤ count numerator denominator) := by
  dsimp only
  obtain ⟨above, below⟩ := count_between nonzero positive
  have bit : (hiddenBit : ℚ) = 2 ^ 52 := by norm_num [hiddenBit]
  rw [bit]
  generalize numerator.log2 = a at above below ⊢
  generalize denominator.log2 = b at above below ⊢
  have unit : (0 : ℚ) < 2 ^ b := by positivity
  rcases Nat.le_total (a + 1074) (b + 53) with small | large
  · have guess : a + 1074 - b - 53 = 0 := by omega
    rw [guess]
    refine ⟨lt_of_mul_lt_mul_right ?_ (le_of_lt unit), Or.inl rfl⟩
    have exponents : a + 1 + 1074 ≤ 54 + b := by omega
    calc count numerator denominator * 2 ^ b < 2 ^ (a + 1 + 1074) := below
      _ ≤ 2 ^ (54 + b) := pow_le_pow_right₀ (by norm_num) exponents
      _ = 2 ^ 0 * (4 * 2 ^ 52) * 2 ^ b := by
        rw [pow_add]
        norm_num
  · obtain ⟨guess, whole⟩ := Nat.exists_eq_add_of_le large
    have isGuess : a + 1074 - b - 53 = guess := by omega
    have exponents : a + 1 + 1074 = guess + 54 + b := by omega
    have otherExponents : a + 1074 = guess + 52 + (b + 1) := by omega
    rw [isGuess]
    rw [exponents, pow_add, pow_add] at below
    rw [otherExponents, pow_add, pow_add 2 guess] at above
    have below := lt_of_mul_lt_mul_right below (le_of_lt unit)
    have above := lt_of_mul_lt_mul_right above
      (by positivity : (0 : ℚ) ≤ 2 ^ (b + 1))
    exact ⟨by linarith, Or.inr (le_of_lt above)⟩

/-- The step leaves a significand below `2 ^ 53`, and not below `2 ^ 52` unless it is the step of
the subnormal numbers. -/
theorem stepFor_spec
    (numerator : Nat) {denominator : Nat} (positive : 0 < denominator) :
    let step := stepFor numerator denominator
    count numerator denominator < 2 ^ step * (2 * hiddenBit) ∧
      (step = 0 ∨
        (2 : ℚ) ^ step * hiddenBit ≤ count numerator denominator) := by
  dsimp only
  unfold stepFor
  split
  · rename_i zero
    subst zero
    simp [count, hiddenBit]
  rename_i nonzero
  obtain ⟨below, above⟩ :=
    guess_spec (Nat.pos_of_ne_zero nonzero) positive
  dsimp only at below above ⊢
  generalize numerator.log2 + 1074 - denominator.log2 - 53 = guess
    at below above ⊢
  obtain ⟨bottomPositive, ratio⟩ := scaled_spec numerator positive guess
  generalize scaled numerator denominator guess = parts
    at bottomPositive ratio ⊢
  have unit : (0 : ℚ) < 2 ^ guess := by positivity
  have fits : parts.1 / parts.2 < 2 * hiddenBit ↔
      count numerator denominator < 2 ^ guess * (2 * hiddenBit) := by
    have bottomPositive' : (0 : ℚ) < parts.2 := by
      exact_mod_cast bottomPositive
    rw [Nat.div_lt_iff_lt_mul bottomPositive, mul_comm ((2 : ℚ) ^ guess),
      ← div_lt_iff₀ unit, ← ratio, div_lt_iff₀ bottomPositive']
    exact_mod_cast Iff.rfl
  split
  · rename_i fitting
    exact ⟨fits.mp fitting, above⟩
  · rename_i large
    have large := not_lt.mp (mt fits.mpr large)
    have next : (2 : ℚ) ^ (guess + 1) = 2 ^ guess * 2 := pow_succ 2 guess
    rw [next]
    exact ⟨by linarith, Or.inr (by linarith)⟩

/-! ## The number -/

/-- What is nearest to a ratio is no farther from it than half a unit. -/
theorem Nearest.scaled
    {rounded : Nat} {amount unit : ℚ} (positive : 0 < unit)
    (nearest : Nearest rounded (amount / unit)) :
    (2 * (rounded : ℚ) - 1) * unit ≤ 2 * amount ∧
      2 * amount ≤ (2 * rounded + 1) * unit ∧
      (rounded % 2 = 1 → (2 * (rounded : ℚ) - 1) * unit < 2 * amount ∧
        2 * amount < (2 * rounded + 1) * unit) := by
  have ratio : amount / unit * unit = amount :=
    div_mul_cancel₀ amount positive.ne'
  have above := mul_le_mul_of_nonneg_right nearest.above positive.le
  have below := mul_le_mul_of_nonneg_right nearest.below positive.le
  refine ⟨by linarith, by linarith, fun odd => ?_⟩
  obtain ⟨more, less⟩ := nearest.inside odd
  have more := mul_lt_mul_of_pos_right more positive
  have less := mul_lt_mul_of_pos_right less positive
  exact ⟨by linarith, by linarith⟩

/-- Rounding stays between the bounds of a significand, both included. -/
theorem Nearest.significand
    {rounded step : Nat} {amount : ℚ}
    (nearest : Nearest rounded (amount / 2 ^ step))
    (below : amount < 2 ^ step * (2 * hiddenBit))
    (above : step = 0 ∨ (2 : ℚ) ^ step * hiddenBit ≤ amount) :
    rounded ≤ 2 * hiddenBit ∧ (step = 0 ∨ hiddenBit ≤ rounded) := by
  have unit : (0 : ℚ) < 2 ^ step := by positivity
  constructor
  · have least : amount / 2 ^ step < 2 * hiddenBit := by
      rwa [div_lt_iff₀ unit, mul_comm]
    have close : (rounded : ℚ) < 2 * hiddenBit + 1 := by
      linarith [nearest.above]
    exact Nat.le_of_lt_succ (by exact_mod_cast close)
  · refine above.imp_right fun above => ?_
    have most : (hiddenBit : ℚ) ≤ amount / 2 ^ step := by
      rwa [le_div_iff₀ unit, mul_comm]
    have close : (hiddenBit : ℚ) < rounded + 1 := by
      linarith [nearest.below]
    exact Nat.le_of_lt_succ (by exact_mod_cast close)

/-- A significand that is nearest to a ratio in units of its last place stands in the cell of the
ratio. A unit is half as large below a power of two, but there the ratio is not below the number. -/
theorem cell_of_nearest
    {amount : ℚ} (nonnegative : 0 ≤ amount) {step rounded : Nat}
    (below : amount < 2 ^ step * (2 * hiddenBit))
    (above : step = 0 ∨ (2 : ℚ) ^ step * hiddenBit ≤ amount)
    (nearest : Nearest rounded (amount / 2 ^ step)) :
    Cell (step * hiddenBit + rounded) amount := by
  obtain ⟨roundedBelow, roundedAbove⟩ := nearest.significand below above
  have parity :
      (step * hiddenBit + rounded) % 2 = 1 → rounded % 2 = 1 := by
    simp only [hiddenBit]
    omega
  have here : (units (step * hiddenBit + rounded) : ℚ) =
      rounded * 2 ^ step := by
    exact_mod_cast units_of_parts roundedBelow roundedAbove
  have next := units_next_of_parts roundedBelow roundedAbove
  obtain ⟨lower, upper, strict⟩ := nearest.scaled (by positivity)
  rcases Nat.eq_zero_or_pos rounded with rfl | positive
  · -- Nothing is below zero.
    obtain rfl : step = 0 := by
      simp only [hiddenBit] at roundedAbove
      omega
    refine ⟨?_, by linarith, fun odd => by omega⟩
    simpa using nonnegative
  by_cases regular : step = 0 ∨ hiddenBit ≤ rounded - 1
  · have whole : step * hiddenBit + rounded - 1 =
        step * hiddenBit + (rounded - 1) :=
      Nat.add_sub_assoc positive _
    have previous : (units (step * hiddenBit + rounded - 1) : ℚ) =
        (rounded - 1) * 2 ^ step := by
      rw [whole, units_of_parts (Nat.sub_le_of_le_add
        (Nat.le_succ_of_le roundedBelow)) regular]
      push_cast [Nat.cast_sub positive]
      rfl
    refine ⟨by linarith, by linarith, fun odd => ?_⟩
    obtain ⟨more, less⟩ := strict (parity odd)
    exact ⟨by linarith, by linarith⟩
  · obtain ⟨notFirst, edge⟩ := not_or.mp regular
    have least := above.resolve_left notFirst
    have isEdge : rounded = hiddenBit := by
      have := roundedAbove.resolve_left notFirst
      omega
    subst isEdge
    have previous :
        (units (step * hiddenBit + hiddenBit - 1) : ℚ) ≤
          units (step * hiddenBit + hiddenBit) :=
      Nat.cast_le.mpr (units_strictMono.monotone (Nat.sub_le _ 1))
    exact ⟨by linarith, by linarith,
      fun odd => absurd (parity odd) (by decide)⟩

private theorem cell_nearestBits
    (numerator : Nat) {denominator : Nat} (positive : 0 < denominator) :
    Cell (nearestBits numerator denominator)
      (count numerator denominator) := by
  obtain ⟨below, above⟩ := stepFor_spec numerator positive
  obtain ⟨bottomPositive, ratio⟩ := scaled_spec numerator positive
    (stepFor numerator denominator)
  have nearest := nearest_roundHalfEven
    (scaled numerator denominator (stepFor numerator denominator)).1
    bottomPositive
  rw [ratio] at nearest
  have nonnegative : 0 ≤ count numerator denominator := by
    unfold count leastUnit
    positivity
  exact cell_of_nearest nonnegative below above nearest

/-- The number of a cell is the only one that rounding finds for the ratios in it. -/
theorem nearestBits_of_cell
    {magnitude numerator denominator : Nat} (positive : 0 < denominator)
    (cell : Cell magnitude (count numerator denominator)) :
    nearestBits numerator denominator = magnitude :=
  (cell_nearestBits numerator positive).unique cell

theorem nearest?_of_cell
    (x : Number) {numerator denominator : Nat} (positive : 0 < denominator)
    (cell : Cell x.magnitude (count numerator denominator)) :
    nearest? x.negative numerator denominator = some x := by
  rw [nearest?, dif_pos (by
    rw [nearestBits_of_cell positive cell]
    exact x.finite)]
  simp only [nearestBits_of_cell positive cell]

/-! ## Integers -/

private theorem nearestBits_of_ratio
    (x : Number) {numerator denominator : Nat} (positive : 0 < denominator)
    (same : (numerator : ℚ) / denominator = x.ratio.1 / x.ratio.2) :
    nearestBits numerator denominator = x.magnitude := by
  refine nearestBits_of_cell positive ?_
  have value : count numerator denominator = units x.magnitude := by
    rw [count, same, ratio_eq, mul_div_assoc, div_self leastUnit_pos.ne',
      mul_one]
  rw [value]
  exact cell_units x.magnitude

private theorem nearestBits_zero : nearestBits 0 1 = 0 := by
  refine nearestBits_of_cell Nat.one_pos ?_
  have value : count 0 1 = units 0 := by
    simp [count]
  rw [value]
  exact cell_units 0

private theorem ratio_of_natAbs?
    {x : Number} {n : Nat} (isInteger : x.natAbs? = some n) :
    (n : ℚ) / (1 : Nat) = x.ratio.1 / x.ratio.2 := by
  have positive := x.denominator_pos
  unfold natAbs? at isInteger
  dsimp only at isInteger
  split at isInteger
  · rename_i whole
    cases isInteger
    have divides := Nat.dvd_of_mod_eq_zero whole
    rw [Nat.cast_one, div_one]
    exact Nat.cast_div divides (by exact_mod_cast positive.ne')
  · cases isInteger

/-- An integer that is the value of a number is read as that number, but for the sign of zero. -/
theorem ofInt?_of_toInt?
    {x : Number} {n : Int} (isInteger : x.toInt? = some n) :
    ∃ y, ofInt? n = some y ∧ y.orderKey = x.orderKey := by
  obtain ⟨_, isCast, isSigned⟩ := Option.map_eq_some_iff.mp isInteger
  obtain ⟨k, isAbsolute, isCast⟩ := Option.bind_eq_some_iff.mp isCast
  cases isCast
  have absolute : n.natAbs = k := by
    subst isSigned
    split
    · exact Int.natAbs_neg k
    · rfl
  have bits : nearestBits n.natAbs 1 = x.magnitude := by
    rw [absolute]
    exact x.nearestBits_of_ratio (by decide) (ratio_of_natAbs? isAbsolute)
  have finite : nearestBits n.natAbs 1 < infinityBits := by
    rw [bits]
    exact x.finite
  refine ⟨⟨decide (n < 0), _, finite⟩, dif_pos finite, ?_⟩
  simp only [orderKey, bits]
  cases sign : x.negative with
  | false =>
      rw [sign, if_neg Bool.false_ne_true] at isSigned
      have notBelow : ¬ n < 0 := by omega
      rw [decide_eq_false notBelow]
  | true =>
      rw [sign, if_pos rfl] at isSigned
      by_cases below : n < 0
      · rw [decide_eq_true below]
      · -- Only the negative zero has a sign that the integer lacks.
        have zero : k = 0 := by omega
        have zeroBits : x.magnitude = 0 := by
          rw [← bits, absolute, zero]
          exact nearestBits_zero
        rw [zeroBits, decide_eq_false below]
        rfl

end Replica.Number
