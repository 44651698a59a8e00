import Replica.Number.Text
import Replica.Proofs.Number.Shortest

/-!
# Numbers are read from their text

The text of a number inside a document is read as that number, whatever form it is written in.
-/

namespace Replica

namespace Number

/-! ## Decimals -/

/-- Ratios that are nearest to a number that is not zero are no less than half of the least one. -/
theorem Cell.least
    {magnitude : Nat} {count : ℚ} (cell : Cell magnitude count)
    (nonzero : 0 < magnitude) : 1 ≤ 2 * count := by
  have rise : units 0 < units magnitude := units_strictMono nonzero
  rw [units_zero] at rise
  have one : (1 : ℚ) ≤ units magnitude := by exact_mod_cast rise
  have previous : (0 : ℚ) ≤ units (magnitude - 1) := Nat.cast_nonneg _
  linarith [cell.above]

private theorem units_infinityBits_lt :
    units infinityBits < 10 ^ 310 * 2 ^ 1074 := by
  decide +kernel

private theorem two_units_lt : 2 * 2 ^ 1074 < 10 ^ 331 := by
  decide +kernel

/-- Ratios that are nearest to a finite number are below the first number that is not. -/
theorem Cell.most
    {magnitude : Nat} {count : ℚ} (cell : Cell magnitude count)
    (finite : magnitude < infinityBits) : count ≤ units infinityBits := by
  have here : (units magnitude : ℚ) ≤ units infinityBits :=
    Nat.cast_le.mpr (units_strictMono.monotone finite.le)
  have next : (units (magnitude + 1) : ℚ) ≤ units infinityBits :=
    Nat.cast_le.mpr (units_strictMono.monotone (Nat.succ_le_of_lt finite))
  linarith [cell.below]

/-- Digits in the cell of a number have neither too few nor too many places. -/
theorem places_of_cell
    {x : Number} (nonzero : 0 < x.magnitude) {n : Nat} {exponent : Int}
    (cell : Cell x.magnitude (n * 10 ^ exponent / leastUnit)) :
    0 < n ∧ -330 ≤ ((Nat.toDigits 10 n).length : Int) + exponent ∧
      ((Nat.toDigits 10 n).length : Int) + exponent ≤ 310 := by
  have unitPositive := leastUnit_pos
  have positive : 0 < n := by
    refine Nat.pos_of_ne_zero fun zero => ?_
    have least := cell.least nonzero
    rw [zero, Nat.cast_zero, zero_mul, zero_div] at least
    linarith
  have power : (0 : ℚ) < 10 ^ exponent := by positivity
  refine ⟨positive, ?_, ?_⟩
  · by_contra few
    have digits : (n : ℚ) < 10 ^ (Nat.toDigits 10 n).length := by
      exact_mod_cast lt_pow_length_toDigits n
    have above : leastUnit ≤ 2 * (n * 10 ^ exponent) := by
      have least := cell.least nonzero
      rwa [← mul_div_assoc, le_div_iff₀ unitPositive, one_mul] at least
    have small : (n : ℚ) * 10 ^ exponent < 10 ^ (-((331 : Nat) : Int)) := by
      calc (n : ℚ) * 10 ^ exponent
          < 10 ^ (Nat.toDigits 10 n).length * 10 ^ exponent := by gcongr
        _ = 10 ^ (((Nat.toDigits 10 n).length : Int) + exponent) := by
          rw [zpow_add₀ (by norm_num), zpow_natCast]
        _ ≤ 10 ^ (-((331 : Nat) : Int)) :=
          zpow_le_zpow_right₀ (by norm_num) (by omega)
    have least : 2 / 10 ^ 331 < leastUnit := by
      have halves : (0 : ℚ) < 2 ^ 1074 := by positivity
      have tenths : (0 : ℚ) < 10 ^ 331 := by positivity
      rw [leastUnit, div_lt_div_iff₀ tenths halves, one_mul]
      exact_mod_cast two_units_lt
    rw [zpow_neg, zpow_natCast] at small
    rw [div_eq_mul_inv] at least
    have double := mul_lt_mul_of_pos_left small (two_pos : (0 : ℚ) < 2)
    exact lt_irrefl _ (above.trans_lt (double.trans least))
  · by_contra many
    have digits : (10 : ℚ) ^ ((Nat.toDigits 10 n).length - 1) ≤ n := by
      exact_mod_cast pow_length_toDigits_le positive
    have below : (n : ℚ) * 10 ^ exponent ≤ units infinityBits * leastUnit := by
      have most := cell.most x.finite
      rwa [div_le_iff₀ unitPositive] at most
    have large : (10 : ℚ) ^ ((310 : Nat) : Int) ≤ n * 10 ^ exponent := by
      calc (10 : ℚ) ^ ((310 : Nat) : Int)
          ≤ 10 ^ ((((Nat.toDigits 10 n).length - 1 : Nat) : Int) + exponent) :=
            zpow_le_zpow_right₀ (by norm_num) (by omega)
        _ = 10 ^ ((Nat.toDigits 10 n).length - 1) * 10 ^ exponent := by
          rw [zpow_add₀ (by norm_num), zpow_natCast]
        _ ≤ n * 10 ^ exponent := by gcongr
    have most : (units infinityBits : ℚ) * leastUnit < 10 ^ 310 := by
      have halves : (0 : ℚ) < 2 ^ 1074 := by positivity
      rw [leastUnit, mul_one_div, div_lt_iff₀ halves]
      exact_mod_cast units_infinityBits_lt
    rw [zpow_natCast] at large
    exact lt_irrefl _ (large.trans_lt (below.trans_lt most))

/-- A decimal that is nearest to a number is read as that number. -/
theorem ofDecimal?_of_cell
    {x : Number} (nonzero : 0 < x.magnitude) {n : Nat} {exponent : Int}
    (cell : Cell x.magnitude (n * 10 ^ exponent / leastUnit)) :
    ofDecimal? x.negative n exponent = some x := by
  obtain ⟨positive, notFew, notMany⟩ := places_of_cell nonzero cell
  unfold ofDecimal?
  dsimp only
  rw [if_neg (by omega), if_neg (by omega)]
  split
  · rename_i up
    obtain ⟨places, rfl⟩ := Int.eq_ofNat_of_zero_le up
    refine nearest?_of_cell x Nat.one_pos ?_
    rw [Int.toNat_natCast, Nat.pow_eq, count]
    push_cast
    rwa [zpow_natCast, ← div_one (_ * _ : ℚ)] at cell
  · rename_i down
    obtain ⟨places, isPlaces⟩ :=
      Int.eq_ofNat_of_zero_le (by omega : 0 ≤ -exponent)
    obtain rfl : exponent = -(places : Int) := by omega
    rw [neg_neg, Int.toNat_natCast, Nat.pow_eq]
    refine nearest?_of_cell x (Nat.pow_pos (by decide)) ?_
    rw [count]
    push_cast
    rwa [zpow_neg, zpow_natCast, ← div_eq_mul_inv] at cell

end Number

/-! ## Parts of a number -/

namespace Json

/-- No digit run goes on into these characters. -/
def Stops (rest : List Char) : Prop :=
  ∀ c ∈ rest.head?, c.isDigit = false

variable {digits rest : List Char}

private theorem digitRun?_append
    (all : ∀ digit ∈ digits, digit.isDigit = true) (nonempty : digits ≠ [])
    (stops : Stops rest) :
    digitRun? (digits ++ rest) = some (digits, rest) := by
  have runEnds : rest.takeWhile Char.isDigit = [] := by
    cases rest with
    | nil => rfl
    | cons c rest =>
        exact List.takeWhile_cons_of_neg (by
          rw [stops c rfl]
          exact Bool.false_ne_true)
  have dropped : rest.dropWhile Char.isDigit = rest := by
    have whole := @List.takeWhile_append_dropWhile _ Char.isDigit rest
    rwa [runEnds, List.nil_append] at whole
  have spanned : (digits ++ rest).span Char.isDigit = (digits, rest) := by
    rw [List.span_eq_takeWhile_dropWhile, List.takeWhile_append_of_pos all,
      List.dropWhile_append_of_pos all, runEnds, dropped, List.append_nil]
  unfold digitRun?
  rw [spanned]
  cases digits with
  | nil => exact absurd rfl nonempty
  | cons _ _ => rfl

private theorem wholePart?_append
    (all : ∀ digit ∈ digits, digit.isDigit = true) (nonempty : digits ≠ [])
    (front : digits = ['0'] ∨ digits.head? ≠ some '0')
    (stops : Stops rest) :
    wholePart? (digits ++ rest) = some (digits, rest) := by
  unfold wholePart?
  rw [digitRun?_append all nonempty stops]
  split
  · rename_i found
    cases found
    rcases front with lone | front
    · cases lone
    · exact absurd rfl front
  · rfl

private theorem fractionPart?_append
    (all : ∀ digit ∈ digits, digit.isDigit = true) (nonempty : digits ≠ [])
    (stops : Stops rest) :
    fractionPart? ('.' :: (digits ++ rest)) = some (some digits, rest) := by
  rw [fractionPart?, digitRun?_append all nonempty stops]
  rfl

private theorem exponentPart?_signed
    (all : ∀ digit ∈ digits, digit.isDigit = true) (nonempty : digits ≠ [])
    (negative : Bool) :
    exponentPart? ('e' :: (if negative then '-' else '+') :: digits) =
      some (some (if negative then -(naturalOf digits : Int)
        else naturalOf digits)) := by
  have run : digitRun? digits = some (digits, []) := by
    have read := @digitRun?_append digits [] all nonempty
      (fun _ absent => by cases absent)
    rwa [List.append_nil] at read
  cases negative with
  | true => simp [exponentPart?, run]
  | false => simp [exponentPart?, run]

/-- What a number is read as, by its parts. -/
theorem numberValue?_of_parts
    {unsigned whole afterWhole afterFraction : List Char}
    {fraction? : Option (List Char)} {exponent? : Option Int}
    (front : unsigned.head? ≠ some '-')
    (wholeRead : wholePart? unsigned = some (whole, afterWhole))
    (fractionRead : fractionPart? afterWhole =
      some (fraction?, afterFraction))
    (exponentRead : exponentPart? afterFraction = some exponent?)
    (negative : Bool) :
    numberValue? ((if negative then ['-'] else []) ++ unsigned) =
      if fraction? = none ∧ exponent? = none then
        integerValue? negative (naturalOf whole)
      else
        (Number.ofDecimal? negative
          (naturalOf (whole ++ fraction?.getD []))
          (exponent?.getD 0 - (fraction?.getD []).length)).map .decimal := by
  have sign : (if negative then ['-'] else []) ++ unsigned =
      (if negative then '-' :: unsigned else unsigned) := by
    cases negative <;> rfl
  rw [sign]
  unfold numberValue?
  have unsignedOther (rest : List Char) : unsigned ≠ '-' :: rest := by
    rintro rfl
    exact front rfl
  cases negative with
  | true =>
      simp only [if_true, wholeRead, Option.bind_eq_bind, Option.bind_some,
        fractionRead, exponentRead]
      split
      · rfl
      · rename_i some
        rw [if_neg]
        rintro ⟨rfl, rfl⟩
        exact some rfl rfl
  | false =>
      simp only [Bool.false_eq_true, if_false, wholeRead,
        Option.bind_eq_bind, Option.bind_some, fractionRead, exponentRead]
      split
      · rfl
      · rename_i some
        rw [if_neg]
        rintro ⟨rfl, rfl⟩
        exact some rfl rfl

private theorem stops_nil : Stops [] :=
  fun _ absent => by cases absent

/-- An integer is written as a sign before decimal digits. -/
theorem toList_toString_int (n : Int) :
    (toString n).toList =
      (if decide (n < 0) then ['-'] else []) ++
        Nat.toDigits 10 n.natAbs := by
  cases n with
  | ofNat k =>
      rw [decide_eq_false (by simp)]
      change (toString k).toList = [] ++ Nat.toDigits 10 k
      rw [Nat.toString_eq_ofList_toDigits, String.toList_ofList,
        List.nil_append]
  | negSucc k =>
      rw [decide_eq_true (Int.negSucc_lt_zero k), if_pos rfl]
      change ("-" ++ toString k.succ).toList =
        ['-'] ++ Nat.toDigits 10 k.succ
      rw [String.toList_append, Nat.toString_eq_ofList_toDigits,
        String.toList_ofList, String.toList_ofList]

/-- An integer that fits is read from its text. -/
theorem numberValue?_toString
    {n : Int} (fits : n.natAbs < UInt64.size / 2) :
    numberValue? (toString n).toList = some (.integer n) := by
  have run (k : Nat) : numberValue?
      ((if decide (n < 0) then ['-'] else []) ++ Nat.toDigits 10 k) =
        integerValue? (decide (n < 0)) k := by
    have digits : ∀ digit ∈ Nat.toDigits 10 k, digit.isDigit = true :=
      fun _ member => Nat.isDigit_of_mem_toDigits (by omega) (by omega) member
    have front : Nat.toDigits 10 k = ['0'] ∨
        (Nat.toDigits 10 k).head? ≠ some '0' := by
      rcases Nat.eq_zero_or_pos k with rfl | positive
      · exact Or.inl rfl
      · exact Or.inr (Number.head?_toDigits positive)
    have noSign : (Nat.toDigits 10 k).head? ≠ some '-' := by
      intro sign
      have digit := digits '-' (List.mem_of_mem_head? sign)
      cases digit
    have whole := wholePart?_append digits Nat.toDigits_ne_nil front stops_nil
    rw [List.append_nil] at whole
    exact (numberValue?_of_parts noSign whole rfl rfl _).trans
      ((if_pos ⟨rfl, rfl⟩).trans (by rw [naturalOf_toDigits]))
  rw [toList_toString_int, run]
  unfold integerValue?
  by_cases below : n < 0
  · have fitting : 0 < n.natAbs ∧ n.natAbs ≤ UInt64.size / 2 := by omega
    have back : -(n.natAbs : Int) = n := by omega
    rw [decide_eq_true below, if_pos rfl, if_pos fitting, back]
  · have fitting : n.natAbs < UInt64.size := by omega
    have back : (n.natAbs : Int) = n := by omega
    rw [decide_eq_false below, if_neg Bool.false_ne_true, if_pos fitting,
      back]

end Json

namespace Number

open Json

/-! ## Written decimals -/

/-- A text without a sign is read as a decimal of some value. -/
structure Reads (text : List Char) (value : ℚ) : Prop where
  plain : ∀ c ∈ text, c.isDigit = true ∨ c ∈ ['.', 'e', '+', '-']
  read : ∀ negative, ∃ (n : Nat) (exponent : Int),
    (n : ℚ) * 10 ^ exponent = value ∧
      numberValue? ((if negative then ['-'] else []) ++ text) =
        (ofDecimal? negative n exponent).map .decimal

def fractionText : Option (List Char) → List Char
  | some digits => '.' :: digits
  | none => []

def exponentText : Option (Bool × List Char) → List Char
  | some (negative, digits) =>
    'e' :: (if negative then '-' else '+') :: digits
  | none => []

def exponentOf : Option (Bool × List Char) → Int
  | some (negative, digits) =>
    if negative then -(naturalOf digits : Int) else naturalOf digits
  | none => 0

def Run (digits : List Char) : Prop :=
  digits ≠ [] ∧ ∀ digit ∈ digits, digit.isDigit = true

private theorem run_singleton
    {digit : Char} (isDigit : digit.isDigit = true) : Run [digit] :=
  ⟨List.cons_ne_nil _ _, List.forall_mem_singleton.mpr isDigit⟩

private theorem run_toDigits (n : Nat) : Run (Nat.toDigits 10 n) :=
  ⟨Nat.toDigits_ne_nil,
    fun _ => Nat.isDigit_of_mem_toDigits (by omega) (by omega)⟩

private theorem isDigit_of_mem_zeros
    {count : Nat} {digit : Char}
    (member : digit ∈ List.replicate count '0') : digit.isDigit = true := by
  rw [List.eq_of_mem_replicate member]
  rfl

private theorem stops_exponentText (exponent? : Option (Bool × List Char)) :
    Stops (exponentText exponent?) := by
  cases exponent? with
  | none => exact stops_nil
  | some exponent =>
      intro c isFront
      cases isFront
      rfl

private theorem stops_fractionText
    (fraction? : Option (List Char))
    (exponent? : Option (Bool × List Char)) :
    Stops (fractionText fraction? ++ exponentText exponent?) := by
  cases fraction? with
  | none => exact stops_exponentText exponent?
  | some fraction =>
      intro c isFront
      cases isFront
      rfl

private theorem fractionPart?_fractionText
    {fraction? : Option (List Char)} (run : ∀ digits ∈ fraction?, Run digits)
    (exponent? : Option (Bool × List Char)) :
    fractionPart? (fractionText fraction? ++ exponentText exponent?) =
      some (fraction?, exponentText exponent?) := by
  cases fraction? with
  | none =>
      cases exponent? with
      | none => rfl
      | some exponent => rfl
  | some fraction =>
      obtain ⟨nonempty, digits⟩ := run fraction rfl
      exact fractionPart?_append digits nonempty
        (stops_exponentText exponent?)

private theorem exponentPart?_exponentText
    {exponent? : Option (Bool × List Char)}
    (run : ∀ exponent ∈ exponent?, Run exponent.2) :
    exponentPart? (exponentText exponent?) =
      some (exponent?.map fun exponent => exponentOf (some exponent)) := by
  cases exponent? with
  | none => rfl
  | some exponent =>
      obtain ⟨nonempty, digits⟩ := run exponent rfl
      exact exponentPart?_signed digits nonempty exponent.1

private theorem plain_parts
    {whole : List Char} {fraction? : Option (List Char)}
    {exponent? : Option (Bool × List Char)} (wholeRun : Run whole)
    (fractionRun : ∀ digits ∈ fraction?, Run digits)
    (exponentRun : ∀ exponent ∈ exponent?, Run exponent.2) {c : Char}
    (member : c ∈ whole ++
      (fractionText fraction? ++ exponentText exponent?)) :
    c.isDigit = true ∨ c ∈ ['.', 'e', '+', '-'] := by
  rcases List.mem_append.mp member with inWhole | later
  · exact Or.inl (wholeRun.2 c inWhole)
  rcases List.mem_append.mp later with inFraction | inExponent
  · cases fraction? with
    | none => cases inFraction
    | some fraction =>
        rcases List.mem_cons.mp inFraction with rfl | inDigits
        · simp
        · exact Or.inl ((fractionRun fraction rfl).2 c inDigits)
  · cases exponent? with
    | none => cases inExponent
    | some exponent =>
        rcases List.mem_cons.mp inExponent with rfl | afterMark
        · simp
        rcases List.mem_cons.mp afterMark with rfl | inDigits
        · split
          · simp
          · simp
        · exact Or.inl ((exponentRun exponent rfl).2 c inDigits)

/-- Digits with a point or an exponent are read for what they are worth. -/
theorem reads_of_parts
    {whole : List Char} {fraction? : Option (List Char)}
    {exponent? : Option (Bool × List Char)} (wholeRun : Run whole)
    (front : whole = ['0'] ∨ whole.head? ≠ some '0')
    (fractionRun : ∀ digits ∈ fraction?, Run digits)
    (exponentRun : ∀ exponent ∈ exponent?, Run exponent.2)
    (marked : fraction? ≠ none ∨ exponent? ≠ none) :
    Reads (whole ++ (fractionText fraction? ++ exponentText exponent?))
      (naturalOf (whole ++ fraction?.getD []) *
        10 ^ (exponentOf exponent? - (fraction?.getD []).length)) := by
  refine ⟨fun c => plain_parts wholeRun fractionRun exponentRun,
    fun negative => ?_⟩
  obtain ⟨nonempty, digits⟩ := wholeRun
  have noSign : (whole ++ (fractionText fraction? ++
      exponentText exponent?)).head? ≠ some '-' := by
    rw [List.head?_append_of_ne_nil _ nonempty]
    intro sign
    have digit := digits '-' (List.mem_of_mem_head? sign)
    cases digit
  have read := numberValue?_of_parts noSign
    (wholePart?_append digits nonempty front
      (stops_fractionText fraction? exponent?))
    (fractionPart?_fractionText fractionRun exponent?)
    (exponentPart?_exponentText exponentRun) negative
  have notInteger : ¬ (fraction? = none ∧ (exponent?.map
      fun exponent => exponentOf (some exponent)) = none) := by
    rintro ⟨noFraction, noExponent⟩
    exact marked.elim (· noFraction)
      (· (Option.map_eq_none_iff.mp noExponent))
  refine ⟨_, _, ?_, read.trans (if_neg notInteger)⟩
  cases exponent? with
  | none => rfl
  | some exponent => rfl

/-! ## Positional digits -/

/-- Digits around a point are read for what they are worth. -/
theorem reads_point
    {whole fraction : List Char} (wholeRun : Run whole)
    (front : whole = ['0'] ∨ whole.head? ≠ some '0')
    (fractionRun : Run fraction) :
    Reads (whole ++ '.' :: fraction)
      (naturalOf (whole ++ fraction) * 10 ^ (-(fraction.length : Int))) := by
  have read := @reads_of_parts whole (some fraction) none wholeRun front
    (by rintro _ ⟨⟩; exact fractionRun) (by rintro _ ⟨⟩)
    (Or.inl (by rintro ⟨⟩))
  rwa [exponentText, List.append_nil, exponentOf, zero_sub] at read

/-- Zeros between the point and the digits. -/
theorem value_leadingZeros
    {d : Digits} (small : d.point ≤ 0) :
    (naturalOf (['0'] ++
        (List.replicate (-d.point).toNat '0' ++ d.digits)) : ℚ) *
      10 ^ (-((List.replicate (-d.point).toNat '0' ++
        d.digits).length : Int)) = d.value := by
  have worth : naturalOf (['0'] ++
      (List.replicate (-d.point).toNat '0' ++ d.digits)) =
        naturalOf d.digits := by
    have lone : naturalOf ['0'] = 0 := rfl
    rw [naturalOf_append, naturalOf_append, naturalOf_zeros, lone]
    omega
  have places : -((List.replicate (-d.point).toNat '0' ++
      d.digits).length : Int) = d.point - d.digits.length := by
    rw [List.length_append, List.length_replicate]
    omega
  rw [worth, places, Digits.value]

/-- Zeros between the digits and the point. -/
theorem value_trailingZeros
    {d : Digits} (large : (d.digits.length : Int) ≤ d.point) :
    (naturalOf (d.digits ++
        List.replicate (d.point.toNat - d.digits.length) '0' ++
          ['0']) : ℚ) * 10 ^ (-((['0'] : List Char).length : Int)) =
      d.value := by
  have worth : naturalOf (d.digits ++
      List.replicate (d.point.toNat - d.digits.length) '0' ++ ['0']) =
        10 * (10 ^ (d.point.toNat - d.digits.length) *
          naturalOf d.digits) := by
    rw [naturalOf_append, naturalOf_append, naturalOf_zeros,
      List.length_replicate]
    rfl
  have places : d.point - d.digits.length =
      ((d.point.toNat - d.digits.length : Nat) : Int) := by
    omega
  rw [worth, Digits.value, places, zpow_natCast]
  push_cast
  rw [List.length_singleton, zpow_neg, Nat.cast_one, zpow_one]
  ring

/-- The point between two digits. -/
theorem value_split
    {d : Digits} (inside : d.point.toNat ≤ d.digits.length)
    (positive : 0 < d.point) :
    (naturalOf (d.digits.take d.point.toNat ++
        d.digits.drop d.point.toNat) : ℚ) *
      10 ^ (-((d.digits.drop d.point.toNat).length : Int)) = d.value := by
  have places : -((d.digits.drop d.point.toNat).length : Int) =
      d.point - d.digits.length := by
    rw [List.length_drop]
    omega
  rw [List.take_append_drop, places, Digits.value]

/-- Positional digits are read for what they are worth. -/
theorem reads_positionalText
    {d : Digits} (proper : d.Proper) :
    Reads (positionalText d true).toList d.value := by
  obtain ⟨digits, nonempty, front⟩ := proper
  have zero : Run ['0'] := run_singleton rfl
  unfold positionalText
  dsimp only
  split
  · rename_i small
    rw [String.toList_append, String.toList_ofList, String.toList_ofList,
      ← value_leadingZeros small]
    refine @reads_point ['0']
      (List.replicate (-d.point).toNat '0' ++ d.digits) zero (Or.inl rfl)
      ⟨List.append_ne_nil_of_right_ne_nil _ nonempty, ?_⟩
    exact List.forall_mem_append.mpr ⟨fun _ => isDigit_of_mem_zeros, digits⟩
  split
  · rename_i large whole
    rw [if_pos rfl, String.toList_append, String.toList_ofList,
      String.toList_ofList, ← value_trailingZeros (by omega)]
    refine reads_point
      ⟨List.append_ne_nil_of_left_ne_nil nonempty _, ?_⟩ (Or.inr ?_) zero
    · exact List.forall_mem_append.mpr
        ⟨digits, fun _ => isDigit_of_mem_zeros⟩
    · rwa [List.head?_append_of_ne_nil _ nonempty]
  · rename_i large inside
    rw [String.toList_append, String.toList_append, String.toList_ofList,
      String.toList_ofList, String.toList_ofList, List.append_assoc,
      ← value_split (by omega) (by omega)]
    refine @reads_point (d.digits.take d.point.toNat)
      (d.digits.drop d.point.toNat) ⟨?_, ?_⟩ (Or.inr ?_) ⟨?_, ?_⟩
    · rw [ne_eq, List.take_eq_nil_iff]
      rintro (zero | nothing)
      · omega
      · exact nonempty nothing
    · exact fun digit member => digits digit (List.mem_of_mem_take member)
    · rwa [List.head?_take, if_neg (by omega)]
    · rw [ne_eq, List.drop_eq_nil_iff]
      omega
    · exact fun digit member => digits digit (List.mem_of_mem_drop member)

/-! ## Digits with an exponent -/

private theorem exponentOf_toDigits (exponent : Int) :
    exponentOf (some (decide (exponent < 0),
      Nat.toDigits 10 exponent.natAbs)) = exponent := by
  rw [exponentOf, naturalOf_toDigits]
  split
  · rename_i below
    have := decide_eq_true_iff.mp below
    omega
  · rename_i notBelow
    have := mt decide_eq_true_iff.mpr notBelow
    omega

private theorem exponentText_toDigits (exponent : Int) :
    "e".toList ++ ((if exponent < 0 then "-" else "+").toList ++
        (toString exponent.natAbs).toList) =
      exponentText (some (decide (exponent < 0),
        Nat.toDigits 10 exponent.natAbs)) := by
  rw [exponentText, Nat.toString_eq_ofList_toDigits, String.toList_ofList,
    String.toList_ofList]
  by_cases below : exponent < 0
  · rw [if_pos below, decide_eq_true below, if_pos rfl]
    rfl
  · rw [if_neg below, decide_eq_false below, if_neg Bool.false_ne_true]
    rfl

/-- A digit, what follows it behind a point, and an exponent are read for what they are worth. -/
theorem reads_exponent
    {digit : Char} (isDigit : digit.isDigit = true) (front : digit ≠ '0')
    {fraction? : Option (List Char)}
    (fractionRun : ∀ fraction ∈ fraction?, Run fraction) (exponent : Int) :
    Reads (digit :: (fractionText fraction? ++
        exponentText (some (decide (exponent < 0),
          Nat.toDigits 10 exponent.natAbs))))
      (naturalOf (digit :: fraction?.getD []) *
        10 ^ (exponent - (fraction?.getD []).length)) := by
  have parts := @reads_of_parts [digit] fraction?
    (some (decide (exponent < 0), Nat.toDigits 10 exponent.natAbs))
    (run_singleton isDigit)
    (Or.inr fun zero => front (Option.some.inj zero)) fractionRun
    (by rintro _ ⟨⟩; exact run_toDigits _) (Or.inr (by rintro ⟨⟩))
  rwa [exponentOf_toDigits] at parts

/-- Digits with an exponent are read for what they are worth. -/
theorem reads_scientificText
    {d : Digits} (proper : d.Proper) :
    Reads (scientificText d).toList d.value := by
  obtain ⟨digits, point⟩ := d
  obtain ⟨areDigits, nonempty, front⟩ := proper
  dsimp only at areDigits nonempty front
  unfold scientificText
  dsimp only
  rw [String.toList_append, String.toList_append, String.toList_append,
    List.append_assoc, List.append_assoc, exponentText_toDigits]
  cases digits with
  | nil => exact absurd rfl nonempty
  | cons digit rest =>
      obtain ⟨isDigit, restDigits⟩ := List.forall_mem_cons.mp areDigits
      have notZero : digit ≠ '0' := fun zero => front (congrArg some zero)
      cases rest with
      | nil =>
          have whole := @reads_exponent digit isDigit notZero none
            (by rintro _ ⟨⟩) (point - 1)
          have places : point - 1 - (((none : Option (List Char)).getD
              []).length : Int) = point - ([digit].length : Int) := by
            simp
          rw [places] at whole
          rw [String.toList_ofList]
          exact whole
      | cons next rest =>
          have mantissa := @reads_exponent digit isDigit notZero
            (some (next :: rest))
            (by
              rintro _ ⟨⟩
              exact ⟨List.cons_ne_nil _ _, restDigits⟩) (point - 1)
          have places : point - 1 - (((some (next :: rest)).getD
              []).length : Int) =
                point - ((digit :: next :: rest).length : Int) := by
            simp
            omega
          rw [places] at mantissa
          rw [String.toList_ofList]
          exact mantissa

/-! ## Numbers -/

/-- The text of a number inside a document is a sign before a decimal that is nearest to it. -/
theorem text_document (x : Number) :
    ∃ unsigned value,
      (x.text .document).toList =
        (if x.negative then ['-'] else []) ++ unsigned ∧
      Reads unsigned value ∧
      ((x.magnitude = 0 ∧ value = 0) ∨
        (0 < x.magnitude ∧ Cell x.magnitude (value / leastUnit))) := by
  have signed (unsigned : String) :
      ((if x.negative then "-" else "") ++ unsigned).toList =
        (if x.negative then ['-'] else []) ++ unsigned.toList := by
    rw [String.toList_append]
    split
    · rfl
    · rfl
  unfold text
  dsimp only
  by_cases zero : x.magnitude = 0
  · rw [if_pos zero]
    have lone : Run ['0'] := run_singleton rfl
    have read := reads_point lone (Or.inl rfl) lone
    refine ⟨_, _, signed _, read, Or.inl ⟨zero, ?_⟩⟩
    have nothing : naturalOf (['0'] ++ ['0']) = 0 := rfl
    rw [nothing, Nat.cast_zero, zero_mul]
  · rw [if_neg zero]
    have nonzero := Nat.pos_of_ne_zero zero
    obtain ⟨proper, cell⟩ :=
      shortestDigits_spec nonzero Style.document.halfway
    refine ⟨_, _, signed _, ?_, Or.inr ⟨nonzero, cell⟩⟩
    by_cases positional : Style.document.positional
        (x.shortestDigits Style.document.halfway).point = true
    · rw [if_pos positional]
      exact reads_positionalText proper
    · rw [if_neg positional]
      exact reads_scientificText proper

/-- A number inside a document is read from its text. -/
theorem numberValue?_text (x : Number) :
    numberValue? (x.text .document).toList = some (.decimal x) := by
  obtain ⟨unsigned, value, written, reads, worth⟩ := text_document x
  obtain ⟨n, exponent, same, read⟩ := reads.read x.negative
  rw [written, read]
  rcases worth with ⟨zero, nothing⟩ | ⟨nonzero, cell⟩
  · have power : (10 : ℚ) ^ exponent ≠ 0 := by positivity
    have noDigits : n = 0 := by
      rw [nothing, mul_eq_zero, or_iff_left power] at same
      exact_mod_cast same
    have isZero : x = { Number.zero with negative := x.negative } := by
      cases x
      cases zero
      rfl
    unfold ofDecimal?
    dsimp only
    rw [if_pos (Or.inl noDigits), Option.map_some, ← isZero]
  · rw [← same] at cell
    rw [ofDecimal?_of_cell nonzero cell, Option.map_some]

theorem plain_text
    {x : Number} {c : Char} (member : c ∈ (x.text .document).toList) :
    c.isDigit = true ∨ c ∈ ['.', 'e', '+', '-'] := by
  obtain ⟨unsigned, value, written, reads, _⟩ := text_document x
  rw [written] at member
  rcases List.mem_append.mp member with sign | later
  · split at sign
    · cases List.mem_singleton.mp sign
      exact Or.inr (by decide)
    · cases sign
  · exact reads.plain c later

end Number

end Replica
