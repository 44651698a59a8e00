import Mathlib.Algebra.Order.Field.Basic
import Mathlib.Order.Monotone.Basic
import Mathlib.Tactic.FieldSimp
import Mathlib.Tactic.Linarith
import Mathlib.Tactic.NormNum
import Mathlib.Tactic.Positivity
import Mathlib.Tactic.Ring
import Replica.Number.Basic

/-!
# What numbers are worth

Every finite number is a whole count of the least positive one. The counts rise with the
magnitudes, so the ratios that are nearest to a number form a cell, from the midpoint below it to
the midpoint above it. A midpoint belongs to the number of the two whose magnitude is even, so no
ratio lies in two cells.
-/

namespace Replica.Number

/-- The least positive number, of which every number is a multiple. -/
def leastUnit : ℚ := 1 / 2 ^ 1074

/-- How often a number holds the least positive one, by its magnitude. -/
def units (magnitude : Nat) : Nat :=
  (if magnitude < hiddenBit then magnitude
    else magnitude % hiddenBit + hiddenBit) *
      2 ^ (magnitude / hiddenBit - 1)

theorem leastUnit_pos : 0 < leastUnit := by
  unfold leastUnit
  positivity

theorem pow_of_large {step : Nat} (large : 1074 ≤ step) :
    (2 : ℚ) ^ step * leastUnit = 2 ^ (step - 1074) := by
  have split : (2 : ℚ) ^ step = 2 ^ (step - 1074) * 2 ^ 1074 := by
    rw [← pow_add, Nat.sub_add_cancel large]
  rw [split, leastUnit]
  field_simp

theorem pow_of_small {step : Nat} (small : ¬ 1074 ≤ step) :
    (2 : ℚ) ^ step * leastUnit = 1 / 2 ^ (1074 - step) := by
  have split : (2 : ℚ) ^ 1074 = 2 ^ (1074 - step) * 2 ^ step := by
    rw [← pow_add, Nat.sub_add_cancel (by omega)]
  rw [leastUnit, split]
  field_simp

theorem units_magnitude (x : Number) :
    (units x.magnitude : ℚ) = x.significand * 2 ^ x.step := by
  have whole : units x.magnitude = x.significand * 2 ^ x.step := rfl
  exact_mod_cast whole

/-- The parts of a magnitude whose significand is that of a normal number. -/
theorem normal_parts
    {significand step : Nat} (above : hiddenBit ≤ significand)
    (below : significand < 2 * hiddenBit) :
    (step * hiddenBit + significand) % hiddenBit =
        significand - hiddenBit ∧
      (step * hiddenBit + significand) / hiddenBit - 1 = step := by
  simp only [hiddenBit] at above below ⊢
  omega

/-- A significand that is not above `2 ^ 53`, and not below `2 ^ 52` unless the number is subnormal,
stands below the step. -/
theorem units_of_parts
    {significand step : Nat} (below : significand ≤ 2 * hiddenBit)
    (above : step = 0 ∨ hiddenBit ≤ significand) :
    units (step * hiddenBit + significand) = significand * 2 ^ step := by
  have normal {significand step : Nat} (above : hiddenBit ≤ significand)
      (below : significand < 2 * hiddenBit) :
      units (step * hiddenBit + significand) = significand * 2 ^ step := by
    obtain ⟨remainder, quotient⟩ := @normal_parts _ step above below
    rw [units, if_neg (Nat.not_lt.mpr (Nat.le_add_left_of_le above)),
      remainder, quotient, Nat.sub_add_cancel above]
  rcases Nat.lt_or_ge significand hiddenBit with subnormal | large
  · obtain rfl := above.resolve_right (Nat.not_le.mpr subnormal)
    rw [Nat.zero_mul, Nat.zero_add, units, if_pos subnormal,
      Nat.div_eq_of_lt subnormal]
  rcases Nat.lt_or_eq_of_le below with inside | rfl
  · exact normal large inside
  · -- The significand `2 ^ 53` is the least one of the next step.
    have carried : step * hiddenBit + 2 * hiddenBit =
        (step + 1) * hiddenBit + hiddenBit := by
      ring
    rw [carried, normal (Nat.le_refl _) (by decide), Nat.pow_succ]
    ring

/-- Every magnitude has such parts. -/
theorem parts (magnitude : Nat) :
    let step := magnitude / hiddenBit - 1
    let significand :=
      if magnitude < hiddenBit then magnitude
      else magnitude % hiddenBit + hiddenBit
    magnitude = step * hiddenBit + significand ∧
      significand < 2 * hiddenBit ∧
      (step = 0 ∨ hiddenBit ≤ significand) := by
  dsimp only
  split
  · rename_i subnormal
    simp only [hiddenBit] at subnormal ⊢
    omega
  · rename_i normal
    simp only [hiddenBit] at normal ⊢
    omega

/-! ## Neighbours -/

/-- Between a number and the next one lies one unit of the last place. -/
theorem units_succ (magnitude : Nat) :
    units (magnitude + 1) =
      units magnitude + 2 ^ (magnitude / hiddenBit - 1) := by
  obtain ⟨whole, below, above⟩ := parts magnitude
  have next := units_of_parts (Nat.succ_le_of_lt below)
    (above.imp_right Nat.le_succ_of_le)
  rw [Nat.succ_eq_add_one, ← Nat.add_assoc, ← whole] at next
  rw [next, Nat.succ_mul, units]

theorem units_magnitude_succ (x : Number) :
    (units (x.magnitude + 1) : ℚ) = units x.magnitude + 2 ^ x.step := by
  exact_mod_cast units_succ x.magnitude

/-- The next number is at least one unit of the last place away. -/
theorem units_next_of_parts
    {significand step : Nat} (below : significand ≤ 2 * hiddenBit)
    (above : step = 0 ∨ hiddenBit ≤ significand) :
    (significand + 1 : ℚ) * 2 ^ step ≤
      units (step * hiddenBit + significand + 1) := by
  have wider : step ≤ (step * hiddenBit + significand) / hiddenBit - 1 := by
    simp only [hiddenBit] at above ⊢
    omega
  have larger : (2 : ℚ) ^ step ≤
      2 ^ ((step * hiddenBit + significand) / hiddenBit - 1) :=
    pow_le_pow_right₀ (by norm_num) wider
  rw [units_succ, units_of_parts below above]
  push_cast
  linarith

theorem units_strictMono : StrictMono units :=
  strictMono_nat_of_lt_succ fun magnitude => by
    rw [units_succ]
    exact Nat.lt_add_of_pos_right (Nat.two_pow_pos _)

@[simp]
theorem units_zero : units 0 = 0 := by
  simp [units]

/-! ## Cells -/

/-- A ratio lies in the cell of a number if twice the ratio lies between the sums with the two
neighbours, and not on them unless the magnitude is even. Ratios are counted in least numbers. -/
structure Cell (magnitude : Nat) (count : ℚ) : Prop where
  above : (units (magnitude - 1) : ℚ) + units magnitude ≤ 2 * count
  below : 2 * count ≤ (units magnitude : ℚ) + units (magnitude + 1)
  inside : magnitude % 2 = 1 →
    (units (magnitude - 1) : ℚ) + units magnitude < 2 * count ∧
      2 * count < (units magnitude : ℚ) + units (magnitude + 1)

/-- The value of a number lies in its own cell. -/
theorem cell_units (magnitude : Nat) : Cell magnitude (units magnitude) := by
  have rise : (units magnitude : ℚ) < units (magnitude + 1) :=
    Nat.cast_lt.mpr (units_strictMono (Nat.lt_succ_self magnitude))
  have fall : (units (magnitude - 1) : ℚ) ≤ units magnitude :=
    Nat.cast_le.mpr (units_strictMono.monotone (Nat.sub_le magnitude 1))
  refine ⟨by linarith, by linarith, fun odd => ⟨?_, by linarith⟩⟩
  have strict : (units (magnitude - 1) : ℚ) < units magnitude :=
    Nat.cast_lt.mpr (units_strictMono (by omega))
  linarith

private theorem Cell.le
    {magnitude other : Nat} {count : ℚ} (here : Cell magnitude count)
    (there : Cell other count) : other ≤ magnitude := by
  by_contra apart
  have higher : magnitude + 1 ≤ other := Nat.succ_le_of_lt (not_le.mp apart)
  have lower : magnitude ≤ other - 1 := by omega
  have first : (units magnitude : ℚ) ≤ units (other - 1) :=
    Nat.cast_le.mpr (units_strictMono.monotone lower)
  have second : (units (magnitude + 1) : ℚ) ≤ units other :=
    Nat.cast_le.mpr (units_strictMono.monotone higher)
  have below := here.below
  have above := there.above
  -- The cells touch, so the numbers are neighbours, and one of them is odd.
  have touching : units other = units (magnitude + 1) := by
    have equal : (units other : ℚ) = units (magnitude + 1) := by linarith
    exact_mod_cast equal
  have next := units_strictMono.injective touching
  rcases Nat.mod_two_eq_zero_or_one magnitude with even | odd
  · have strict := (there.inside (by omega)).1
    linarith
  · have strict := (here.inside odd).2
    linarith

/-- A ratio lies in one cell at most. -/
theorem Cell.unique
    {magnitude other : Nat} {count : ℚ} (here : Cell magnitude count)
    (there : Cell other count) : magnitude = other :=
  Nat.le_antisymm (there.le here) (here.le there)

/-! ## Ratios -/

theorem denominator_pos (x : Number) : 0 < x.ratio.2 := by
  unfold ratio
  split
  · exact Nat.one_pos
  · exact Nat.pow_pos (by decide)

/-- The absolute value of a number, as a ratio. -/
theorem ratio_eq (x : Number) :
    (x.ratio.1 : ℚ) / x.ratio.2 = units x.magnitude * leastUnit := by
  rw [units_magnitude, ratio, mul_assoc]
  split
  · rename_i large
    rw [pow_of_large large, Nat.pow_eq]
    push_cast
    exact div_one _
  · rename_i small
    rw [pow_of_small small, Nat.pow_eq]
    push_cast
    field_simp

end Replica.Number
