import Mathlib.Tactic.LinearCombination
import Replica.Proofs.Number.Digits
import Replica.Proofs.Number.Rounding

/-!
# Shortest digits are the number's own

The interval that the search looks at is the cell of the number. Every grid of decimals that has a
member in the interval is one whose digits stand for that number, and the last grid, of seventeen
digits, is fine enough to have one.
-/

namespace Replica.Number

/-! ## The interval -/

/-- An interval is the cell of a number, where the least number counts as a given unit. -/
structure Interval.Spans (i : Interval) (magnitude : Nat) (unit : ℚ) :
    Prop where
  positive : 0 < i.denominator
  value : (i.value : ℚ) = units magnitude * unit * i.denominator
  low : 2 * (i.low : ℚ) =
    (units (magnitude - 1) + units magnitude) * unit * i.denominator
  high : 2 * (i.high : ℚ) =
    (units magnitude + units (magnitude + 1)) * unit * i.denominator
  closed : i.closed = decide (magnitude % 2 = 0)

private theorem significand_pos
    {x : Number} (nonzero : 0 < x.magnitude) : 0 < x.significand := by
  unfold significand
  split
  · exact nonzero
  · exact Nat.add_pos_right _ (by decide)

private theorem magnitude_eq (x : Number) :
    x.magnitude = x.step * hiddenBit + x.significand :=
  (parts x.magnitude).1

/-- Below a power of two the next number is only half as far away. -/
theorem units_pred
    {x : Number} (nonzero : 0 < x.magnitude) :
    2 * (units (x.magnitude - 1) : ℚ) +
        ((if x.significand = hiddenBit ∧ 0 < x.step then 1 else 2 : Nat) :
          ℚ) * 2 ^ x.step =
      2 * units x.magnitude := by
  obtain ⟨previous, isNext⟩ :
      ∃ previous, x.magnitude = previous + 1 :=
    ⟨x.magnitude - 1, by omega⟩
  have next := units_succ previous
  have whole := x.magnitude_eq
  have stepEq : x.step = (previous + 1) / hiddenBit - 1 := by
    rw [step, isNext]
  rw [isNext, Nat.add_sub_cancel, next]
  split
  · rename_i edge
    have one : x.step = previous / hiddenBit - 1 + 1 := by
      rw [edge.1] at whole
      simp only [hiddenBit] at whole stepEq ⊢
      omega
    rw [one, pow_succ]
    push_cast
    ring
  · rename_i inside
    have same : x.step = previous / hiddenBit - 1 := by
      have nonzero := significand_pos nonzero
      have below : x.significand < 2 * hiddenBit :=
        (parts x.magnitude).2.1
      simp only [hiddenBit, not_and, not_lt] at *
      omega
    rw [same]
    push_cast
    ring

/-- The interval counts in quarters of a unit of the last place. -/
theorem interval_scale (x : Number) (n : Nat) :
    4 * ((if 1074 ≤ x.step then n * Nat.pow 2 (x.step - 1074) else n :
      Nat) : ℚ) = n * (2 ^ x.step * leastUnit) * x.interval.denominator := by
  simp only [interval]
  split
  · rename_i large
    rw [pow_of_large large, Nat.pow_eq]
    push_cast
    ring
  · rename_i small
    rw [pow_of_small small, Nat.pow_eq]
    push_cast
    field_simp

private theorem interval_spans
    {x : Number} (nonzero : 0 < x.magnitude) :
    x.interval.Spans x.magnitude leastUnit := by
  have here := units_magnitude x
  refine ⟨?_, ?_, ?_, ?_, ?_⟩
  · simp only [interval]
    split
    · decide
    · exact Nat.mul_pos (by decide) (Nat.pow_pos (by decide))
  · have value := interval_scale x (4 * x.significand)
    change 4 * (x.interval.value : ℚ) = _ at value
    rw [here]
    push_cast at value
    linarith
  · have low := interval_scale x (4 * x.significand -
      if x.significand = hiddenBit ∧ 0 < x.step then 1 else 2)
    change 4 * (x.interval.low : ℚ) = _ at low
    have positive := significand_pos nonzero
    have below := units_pred nonzero
    rw [Nat.cast_sub (by split <;> omega)] at low
    rw [here] at below ⊢
    push_cast at low below
    have gap : (units (x.magnitude - 1) : ℚ) = x.significand * 2 ^ x.step -
        (if x.significand = hiddenBit ∧ 0 < x.step then 1 else 2) / 2 *
          2 ^ x.step := by
      linarith
    rw [gap]
    linear_combination low / 2
  · have high := interval_scale x (4 * x.significand + 2)
    change 4 * (x.interval.high : ℚ) = _ at high
    rw [units_magnitude_succ, here]
    push_cast at high
    linear_combination high / 2
  · change decide (x.significand % 2 = 0) = _
    have parity : x.significand % 2 = x.magnitude % 2 := by
      have whole := x.magnitude_eq
      simp only [hiddenBit] at whole
      omega
    rw [parity]

private theorem Interval.Spans.shift
    {i : Interval} {magnitude : Nat} {unit : ℚ}
    (spans : i.Spans magnitude unit) (places : Int) :
    (i.shift places).Spans magnitude (unit * 10 ^ places) := by
  obtain ⟨positive, value, low, high, closed⟩ := spans
  unfold Interval.shift
  split
  · rename_i up
    obtain ⟨count, rfl⟩ := Int.eq_ofNat_of_zero_le up
    rw [Int.toNat_natCast, Nat.pow_eq, zpow_natCast]
    refine ⟨positive, ?_, ?_, ?_, closed⟩
    · push_cast
      linear_combination value * 10 ^ count
    · push_cast
      linear_combination low * 10 ^ count
    · push_cast
      linear_combination high * 10 ^ count
  · rename_i down
    obtain ⟨count, isCount⟩ :=
      Int.eq_ofNat_of_zero_le (by omega : 0 ≤ -places)
    obtain rfl : places = -(count : Int) := by omega
    have back : unit * 10 ^ (-(count : Int)) * 10 ^ count = unit := by
      rw [zpow_neg, zpow_natCast]
      field_simp
    generalize unit * 10 ^ (-(count : Int)) = fine at back ⊢
    rw [← back] at value low high
    rw [neg_neg, Int.toNat_natCast, Nat.pow_eq]
    refine ⟨Nat.mul_pos positive (Nat.pow_pos (by decide)), ?_, ?_, ?_, closed⟩
    · push_cast
      linear_combination value
    · push_cast
      linear_combination low
    · push_cast
      linear_combination high

/-! ## One grid -/

section Grid

variable {i : Interval} {magnitude : Nat} {unit : ℚ}
  (spans : i.Spans magnitude unit)

include spans

/-- A member of the interval stands for the number. -/
theorem Interval.Spans.cell_of_contains
    (unitPositive : 0 < unit) {n : Nat} (inside : i.contains n = true) :
    Cell magnitude (n / unit) := by
  obtain ⟨positive, _, low, high, closed⟩ := spans
  have positive : (0 : ℚ) < i.denominator := by exact_mod_cast positive
  have count : (n / unit) * unit * i.denominator = n * i.denominator := by
    field_simp
  have scale : 0 < unit * i.denominator := mul_pos unitPositive positive
  unfold Interval.contains at inside
  rw [closed] at inside
  rcases Nat.mod_two_eq_zero_or_one magnitude with even | odd
  · simp only [even, decide_true, if_true, Bool.and_eq_true,
      decide_eq_true_eq] at inside
    have above : (i.low : ℚ) ≤ n * i.denominator := by
      exact_mod_cast inside.1
    have below : (n : ℚ) * i.denominator ≤ i.high := by
      exact_mod_cast inside.2
    refine ⟨?_, ?_, fun odd => by omega⟩
    · refine le_of_mul_le_mul_right ?_ scale
      linarith
    · refine le_of_mul_le_mul_right ?_ scale
      linarith
  · simp only [odd, Nat.one_ne_zero, decide_false, Bool.false_eq_true,
      if_false, Bool.and_eq_true, decide_eq_true_eq] at inside
    have above : (i.low : ℚ) < n * i.denominator := by
      exact_mod_cast inside.1
    have below : (n : ℚ) * i.denominator < i.high := by
      exact_mod_cast inside.2
    have strictAbove : (units (magnitude - 1) : ℚ) + units magnitude <
        2 * (n / unit) := by
      refine lt_of_mul_lt_mul_right ?_ scale.le
      linarith
    have strictBelow : 2 * (n / unit) <
        (units magnitude : ℚ) + units (magnitude + 1) := by
      refine lt_of_mul_lt_mul_right ?_ scale.le
      linarith
    exact ⟨strictAbove.le, strictBelow.le,
      fun _ => ⟨strictAbove, strictBelow⟩⟩

/-- Where the neighbours of the number are more than one step of the grid away, the interval holds
whatever is no more than half a step away. -/
theorem Interval.Spans.contains_of_near
    (above : 1 < (units (magnitude + 1) - units magnitude : ℚ) * unit)
    (below : 1 < (units magnitude - units (magnitude - 1) : ℚ) * unit)
    {n : Nat} (notFarBelow : 2 * i.value ≤ (2 * n + 1) * i.denominator)
    (notFarAbove : 2 * n * i.denominator ≤ 2 * i.value + i.denominator) :
    i.contains n = true := by
  obtain ⟨positive, value, low, high, _⟩ := spans
  have positive : (0 : ℚ) < i.denominator := by exact_mod_cast positive
  have notFarBelow : 2 * (i.value : ℚ) ≤ (2 * n + 1) * i.denominator := by
    exact_mod_cast notFarBelow
  have notFarAbove : 2 * (n : ℚ) * i.denominator ≤
      2 * i.value + i.denominator := by
    exact_mod_cast notFarAbove
  have wideAbove := mul_lt_mul_of_pos_right above positive
  have wideBelow := mul_lt_mul_of_pos_right below positive
  have lower : (i.low : ℚ) < n * i.denominator := by linarith
  have upper : (n : ℚ) * i.denominator < i.high := by linarith
  have lower : i.low < n * i.denominator := by exact_mod_cast lower
  have upper : n * i.denominator < i.high := by exact_mod_cast upper
  unfold Interval.contains
  dsimp only
  split
  · simp only [Bool.and_eq_true, decide_eq_true_eq]
    exact ⟨lower.le, upper.le⟩
  · simp only [Bool.and_eq_true, decide_eq_true_eq]
    exact ⟨lower, upper⟩

end Grid

private theorem passes_of_first
    {test : Nat → Bool} {a b c n : Nat}
    (first : (if test a then some a else if test b then some b
      else if test c then some c else none) = some n) : test n = true := by
  split at first
  · rename_i passes
    cases first
    exact passes
  split at first
  · rename_i passes
    cases first
    exact passes
  split at first
  · rename_i passes
    cases first
    exact passes
  · cases first

private theorem Interval.contains_of_choose?
    {i : Interval} {halfway : Halfway} {n : Nat}
    (chosen : i.choose? halfway = some n) : i.contains n = true :=
  passes_of_first chosen

/-- A choice is made if whatever is no more than half a step away is in the interval. -/
theorem Interval.isSome_choose?
    {i : Interval} (positive : 0 < i.denominator)
    (near : ∀ n : Nat, 2 * i.value ≤ (2 * n + 1) * i.denominator →
      2 * n * i.denominator ≤ 2 * i.value + i.denominator →
      i.contains n = true)
    (halfway : Halfway) : (i.choose? halfway).isSome = true := by
  have whole := Nat.div_add_mod' i.value i.denominator
  have rest := Nat.mod_lt i.value positive
  have nearDown (down : 2 * (i.value % i.denominator) ≤ i.denominator) :
      i.contains (i.value / i.denominator) = true := by
    refine near _ ?_ ?_
    · linarith
    · linarith [Nat.zero_le (i.value % i.denominator)]
  have nearUp (up : i.denominator ≤ 2 * (i.value % i.denominator)) :
      i.contains (i.value / i.denominator + 1) = true := by
    refine near _ ?_ ?_
    · linarith
    · linarith
  unfold Interval.choose?
  dsimp only
  rw [if_pos]
  · rfl
  · split
    · rename_i down
      exact nearDown down.le
    split
    · rename_i up
      exact nearUp up.le
    · rename_i notDown notUp
      split
      · split
        · exact nearDown (not_lt.mp notUp)
        · exact nearUp (not_lt.mp notDown)
      · exact nearUp (not_lt.mp notDown)

/-! ## The search -/

/-- A number has at most `2 ^ 53` times the distance to either neighbour. -/
theorem units_le_gaps
    {x : Number} (nonzero : 0 < x.magnitude) :
    (units x.magnitude : ℚ) ≤
        2 * hiddenBit * (units (x.magnitude + 1) - units x.magnitude) ∧
      (units x.magnitude : ℚ) ≤
        2 * hiddenBit * (units x.magnitude - units (x.magnitude - 1)) := by
  have below : x.significand < 2 * hiddenBit := (parts x.magnitude).2.1
  have here := units_magnitude x
  have previous := units_pred nonzero
  have unit : (0 : ℚ) < 2 ^ x.step := by positivity
  have below' : (x.significand : ℚ) ≤ 2 * hiddenBit := by
    exact_mod_cast below.le
  have scaled := mul_le_mul_of_nonneg_right below' unit.le
  constructor
  · rw [units_magnitude_succ, here]
    linarith
  · split at previous
    · rename_i edge
      rw [here, edge.1] at previous ⊢
      push_cast at previous
      have gap : (hiddenBit : ℚ) * 2 ^ x.step - units (x.magnitude - 1) =
          2 ^ x.step / 2 := by
        linarith
      rw [gap]
      linarith
    · push_cast at previous
      have gap : (units x.magnitude : ℚ) - units (x.magnitude - 1) =
          2 ^ x.step := by
        linarith
      rw [gap, here]
      exact scaled

private theorem searchDigits_of_some
    {i : Interval} {point : Int} {halfway : Halfway} {count n : Nat}
    (chosen : (i.shift (count - point)).choose? halfway = some n)
    (turns : Nat) :
    searchDigits i point halfway count turns = (n, point - count) := by
  unfold searchDigits
  dsimp only
  rw [chosen]

private theorem searchDigits_of_none
    {i : Interval} {point : Int} {halfway : Halfway} {count : Nat}
    (none : (i.shift (count - point)).choose? halfway = none)
    (turns : Nat) :
    searchDigits i point halfway count (turns + 1) =
      searchDigits i point halfway (count + 1) turns := by
  conv => lhs; unfold searchDigits
  dsimp only
  rw [none]

private theorem searchDigits_spec
    {i : Interval} {magnitude : Nat} {unit : ℚ}
    (spans : i.Spans magnitude unit) (unitPositive : 0 < unit)
    {point : Int} {halfway : Halfway} (turns count : Nat)
    (last : ((i.shift ((count + turns : Nat) - point)).choose?
      halfway).isSome = true) :
    Cell magnitude ((searchDigits i point halfway count turns).1 *
      10 ^ (searchDigits i point halfway count turns).2 / unit) := by
  have settled {count n : Nat}
      (chosen : (i.shift (count - point)).choose? halfway = some n) :
      Cell magnitude (n * 10 ^ (point - count) / unit) := by
    have inside := (spans.shift (count - point)).cell_of_contains
      (by positivity) (Interval.contains_of_choose? chosen)
    have same : (n : ℚ) / (unit * 10 ^ ((count : Int) - point)) =
        n * 10 ^ (point - (count : Int)) / unit := by
      rw [← neg_sub, zpow_neg]
      field_simp
    rwa [same] at inside
  induction turns generalizing count with
  | zero =>
      obtain ⟨n, chosen⟩ := Option.isSome_iff_exists.mp last
      rw [Nat.add_zero] at chosen
      rw [searchDigits_of_some chosen]
      exact settled chosen
  | succ turns inductionHypothesis =>
      cases chosen : (i.shift (count - point)).choose? halfway with
      | some n =>
          rw [searchDigits_of_some chosen]
          exact settled chosen
      | none =>
          rw [searchDigits_of_none chosen]
          refine inductionHypothesis (count + 1) ?_
          rwa [Nat.add_right_comm]

/-- Seventeen digits are enough. -/
theorem isSome_choose?_last
    {x : Number} (nonzero : 0 < x.magnitude) (halfway : Halfway) :
    ((x.interval.shift ((17 : Nat) - decimalPoint x.interval.value
      x.interval.denominator)).choose? halfway).isSome = true := by
  have spans := interval_spans nonzero
  have positive : (0 : ℚ) < x.interval.denominator := by
    exact_mod_cast spans.positive
  have worth : 0 < units x.magnitude := by
    have rise := units_strictMono nonzero
    rwa [units_zero] at rise
  have unitPositive := leastUnit_pos
  have valueNonzero : 0 < x.interval.value := by
    have worth' : (0 : ℚ) < units x.magnitude := by exact_mod_cast worth
    have value : (0 : ℚ) < x.interval.value := by
      rw [spans.value]
      positivity
    exact_mod_cast value
  have high := pow_decimalPoint_le valueNonzero spans.positive
  have ratio : (x.interval.value : ℚ) / x.interval.denominator =
      units x.magnitude * leastUnit := by
    rw [spans.value]
    field_simp
  rw [ratio] at high
  generalize decimalPoint x.interval.value x.interval.denominator = point
    at high ⊢
  have shifted := spans.shift ((17 : Nat) - point)
  have finePositive : 0 < leastUnit * 10 ^ (((17 : Nat) : Int) - point) := by
    positivity
  have large : (10 : ℚ) ^ 16 ≤ units x.magnitude *
      (leastUnit * 10 ^ (((17 : Nat) : Int) - point)) := by
    have power : (10 : ℚ) ^ 16 =
        10 ^ (point - 1) * 10 ^ (((17 : Nat) : Int) - point) := by
      rw [← zpow_add₀ (by norm_num)]
      norm_num
    rw [power, ← mul_assoc]
    exact mul_le_mul_of_nonneg_right high (by positivity)
  have wide {gap : ℚ} (gaps : (units x.magnitude : ℚ) ≤ 2 * hiddenBit * gap) :
      1 < gap * (leastUnit * 10 ^ (((17 : Nat) : Int) - point)) := by
    have scaled := mul_le_mul_of_nonneg_right gaps finePositive.le
    have bit : (hiddenBit : ℚ) = 2 ^ 52 := by norm_num [hiddenBit]
    rw [bit] at scaled
    nlinarith
  obtain ⟨above, below⟩ := units_le_gaps nonzero
  exact Interval.isSome_choose? shifted.positive
    (fun _ => shifted.contains_of_near (wide above) (wide below)) halfway

/-! ## The digits -/

private theorem significantDigits_spec
    {n : Nat} (positive : 0 < n) :
    ∃ zeros, Nat.toDigits 10 n =
        significantDigits n ++ List.replicate zeros '0' ∧
      significantDigits n ≠ [] ∧
      (significantDigits n).head? ≠ some '0' := by
  have split : Nat.toDigits 10 n = significantDigits n ++
      ((Nat.toDigits 10 n).reverse.takeWhile (· == '0')).reverse := by
    rw [significantDigits, ← List.reverse_append,
      List.takeWhile_append_dropWhile, List.reverse_reverse]
  have zeros : ((Nat.toDigits 10 n).reverse.takeWhile (· == '0')).reverse =
      List.replicate ((Nat.toDigits 10 n).reverse.takeWhile
        (· == '0')).length '0' := by
    rw [List.eq_replicate_iff]
    refine ⟨List.length_reverse, fun digit member => ?_⟩
    exact beq_iff_eq.mp
      (List.all_eq_true.mp List.all_takeWhile digit
        (List.mem_reverse.mp member))
  rw [zeros] at split
  have front := head?_toDigits positive
  have some : significantDigits n ≠ [] := by
    intro nothing
    have value := Json.naturalOf_toDigits n
    rw [split, nothing, List.nil_append, Json.naturalOf_zeros] at value
    omega
  refine ⟨_, split, some, ?_⟩
  rwa [split, List.head?_append_of_ne_nil _ some] at front

def Digits.value (d : Digits) : ℚ :=
  Json.naturalOf d.digits * 10 ^ (d.point - d.digits.length)

/-- Digits that a number can be written with. -/
structure Digits.Proper (d : Digits) : Prop where
  digits : ∀ digit ∈ d.digits, digit.isDigit = true
  nonempty : d.digits ≠ []
  front : d.digits.head? ≠ some '0'

/-- Zeros left out at the end are made up for by the point. -/
theorem value_significantDigits
    {n : Nat} (positive : 0 < n) (exponent : Int) :
    Digits.value ⟨significantDigits n,
        exponent + (Nat.toDigits 10 n).length⟩ = n * 10 ^ exponent := by
  obtain ⟨zeros, split, _⟩ := significantDigits_spec positive
  have worth : (n : ℚ) =
      10 ^ zeros * (Json.naturalOf (significantDigits n) : ℚ) := by
    have value := Json.naturalOf_toDigits n
    rw [split, Json.naturalOf_append, Json.naturalOf_zeros,
      List.length_replicate, Nat.add_zero] at value
    exact_mod_cast value.symm
  have point : exponent + ((Nat.toDigits 10 n).length : Int) -
      ((significantDigits n).length : Int) = exponent + (zeros : Int) := by
    rw [split, List.length_append, List.length_replicate]
    omega
  rw [Digits.value, point, zpow_add₀ (by norm_num), zpow_natCast, worth]
  ring

/-- The shortest digits of a number are read as that number. -/
theorem shortestDigits_spec
    {x : Number} (nonzero : 0 < x.magnitude) (halfway : Halfway) :
    (x.shortestDigits halfway).Proper ∧
      Cell x.magnitude ((x.shortestDigits halfway).value / leastUnit) := by
  have cell := searchDigits_spec (interval_spans nonzero) leastUnit_pos
    16 1 (isSome_choose?_last nonzero halfway)
  unfold shortestDigits
  dsimp only
  generalize searchDigits x.interval (decimalPoint x.interval.value
    x.interval.denominator) halfway 1 16 = found at cell ⊢
  have positive : 0 < found.1 := by
    refine Nat.pos_of_ne_zero fun zero => ?_
    have above := cell.above
    have rise : (units 0 : ℚ) < units x.magnitude :=
      Nat.cast_lt.mpr (units_strictMono nonzero)
    have least : (0 : ℚ) ≤ units (x.magnitude - 1) := Nat.cast_nonneg _
    rw [units_zero, Nat.cast_zero] at rise
    rw [zero, Nat.cast_zero, zero_mul, zero_div] at above
    linarith
  obtain ⟨zeros, split, some, front⟩ := significantDigits_spec positive
  refine ⟨⟨fun digit member => ?_, some, front⟩, ?_⟩
  · refine @Nat.isDigit_of_mem_toDigits 10 found.1 _ (by omega)
      (by omega) ?_
    rw [split]
    exact List.mem_append_left _ member
  · rwa [value_significantDigits positive]

end Replica.Number
