import Mathlib.Data.String.Basic
import Replica.DataError

/-!
# Keys that are fit for data

A key that is fit for data is read from its own text, and it is none of the reserved ones.
Positions in lists are such keys.
-/

namespace Replica

/-- No character takes more than four bytes. -/
theorem utf8ByteSize_ofList_le (characters : List Char) :
    (String.ofList characters).utf8ByteSize ≤ 4 * characters.length := by
  rw [String.utf8ByteSize_ofList]
  induction characters with
  | nil => exact le_rfl
  | cons c rest inductionHypothesis =>
      rw [String.utf8Len_cons, List.length_cons]
      have first := c.utf8Size_le_four
      omega

namespace Key

theorem text_injective : Function.Injective Key.text := by
  intro first second same
  cases first
  cases second
  cases same
  rfl

theorem text_ne_of_isValid
    {key reserved : Key} (valid : key.isValid = true)
    (unfit : reserved.isValid = false) : key.text ≠ reserved.text := by
  intro same
  rw [Key.text_injective same, unfit] at valid
  cases valid

theorem fault?_of_isValid
    {key : Key} (valid : key.isValid = true) : fault? key.text = none :=
  Option.isNone_iff_eq_none.mp valid

theorem text_nonempty_of_isValid
    {key : Key} (valid : key.isValid = true) : key.text.toList ≠ [] := by
  intro nothing
  have empty : key.text.isEmpty = true := by
    rw [String.isEmpty_iff, ← String.toList_eq_nil_iff]
    exact nothing
  have fit := fault?_of_isValid valid
  rw [fault?, if_pos empty] at fit
  cases fit

theorem unforbidden_of_isValid
    {key : Key} (valid : key.isValid = true) :
    ∀ c ∈ key.text.toList, isForbidden c = false := by
  have fit := fault?_of_isValid valid
  unfold fault? at fit
  split at fit
  · cases fit
  split at fit
  · cases fit
  · intro c member
    have clean := List.find?_eq_none.mp (Option.map_eq_none_iff.mp fit)
    simpa using clean c member

@[simp]
theorem parse_of_isValid
    {key : Key} (valid : key.isValid = true) :
    Key.parse key.text = .ok key := by
  rw [Key.parse, fault?_of_isValid valid]

theorem isValid_of_parse
    {text : String} {key : Key} (read : Key.parse text = .ok key) :
    key.isValid = true := by
  unfold Key.parse at read
  split at read
  · cases read
  · rename_i fit
    cases read
    rw [isValid, fit]
    rfl

theorem isForbidden_of_isDigit
    {c : Char} (digit : c.isDigit = true) : isForbidden c = false := by
  have bounds : 48 ≤ c.toNat ∧ c.toNat ≤ 57 := by
    simp only [Char.isDigit, Bool.and_eq_true, decide_eq_true_eq] at digit
    exact digit
  have unlike (other : Char) (outside : other.toNat < 48 ∨ 57 < other.toNat) :
      (c == other) = false := by
    rw [beq_eq_false_iff_ne]
    rintro rfl
    omega
  rw [isForbidden, unlike '.' (by decide), unlike '#' (by decide),
    unlike '$' (by decide), unlike '[' (by decide), unlike ']' (by decide),
    unlike '/' (by decide)]
  simp only [Bool.false_or, Bool.or_eq_false_iff, decide_eq_false_iff_not,
    beq_eq_false_iff_ne]
  omega

/-- A position in a list is fit for data. -/
@[simp]
theorem isValid_position
    {position : Nat} (bounded : position < UInt64.size) :
    Key.isValid ⟨toString position⟩ = true := by
  have few : (Nat.toDigits 10 position).length ≤ 20 :=
    (Nat.length_toDigits_le_iff (by omega) (by omega)).mpr
      (Nat.lt_trans bounded (by decide))
  rw [isValid, Nat.toString_eq_ofList_toDigits, fault?, if_neg, if_neg,
    String.toList_ofList, List.find?_eq_none.mpr]
  · rfl
  · intro c member
    rw [isForbidden_of_isDigit
      (Nat.isDigit_of_mem_toDigits (by omega) (by omega) member)]
    exact Bool.false_ne_true
  · have short := utf8ByteSize_ofList_le (Nat.toDigits 10 position)
    change ¬ 768 < (String.ofList (Nat.toDigits 10 position)).utf8ByteSize
    omega
  · rw [String.isEmpty_iff]
    intro nothing
    have noDigits := congrArg String.toList nothing
    rw [String.toList_ofList] at noDigits
    exact Nat.toDigits_ne_nil noDigits

end Key

end Replica
