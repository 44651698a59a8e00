import Mathlib.Data.List.Basic
import Replica.Path
import Replica.Scalar

/-!
# Orders of keys, paths, scalars and priorities

Keys and paths are totally ordered, and only equal ones compare as equal. Scalars and priorities
are ordered up to the two zeros, so there equality in the order is an equivalence only.
-/

namespace Replica

open Std

/-! ## Keys -/

namespace Key

/-- The order of keys is the lexicographic order of band, number, width and text. -/
theorem compare_eq_compareLex :
    (compare : Key → Key → Ordering) =
      compareLex (compareOn band)
        (compareLex (compareOn number)
          (compareLex (compareOn width) (compareOn text))) :=
  rfl

instance : TransOrd Key := by
  unfold TransOrd
  rw [compare_eq_compareLex]
  infer_instance

instance : LawfulEqOrd Key where
  compare_self := ReflOrd.compare_self
  eq_of_compare {left right} equal := by
    rw [compare_eq_compareLex] at equal
    simp only [compareLex_eq_eq, compareOn] at equal
    have sameText : left.text = right.text :=
      LawfulEqOrd.eq_of_compare equal.2.2.2
    cases left
    cases right
    exact congrArg Key.mk sameText

end Key

/-! ## Paths -/

namespace Path

theorem order_eq_compareLex :
    ∀ left right : Path,
      order left right = List.compareLex compare left right
  | [], [] => rfl
  | [], _ :: _ => rfl
  | _ :: _, [] => rfl
  | first :: left, second :: right => by
      rw [order, List.compareLex_cons_cons,
        order_eq_compareLex left right]

theorem compare_eq_order :
    (compare : Path → Path → Ordering) = order :=
  rfl

instance : TransOrd Path := by
  have asLists :
      (compare : Path → Path → Ordering) =
        List.compareLex (compare : Key → Key → Ordering) := by
    funext left right
    exact order_eq_compareLex left right
  unfold TransOrd
  rw [asLists]
  infer_instance

instance : LawfulEqOrd Path where
  compare_self := ReflOrd.compare_self
  eq_of_compare {left right} equal := by
    rw [compare_eq_order, order_eq_compareLex] at equal
    exact LawfulEqCmp.eq_of_compare equal

/-- A common beginning does not count in the order of paths. -/
@[simp]
theorem compare_append :
    ∀ base left right : Path,
      compare (base ++ left) (base ++ right) = compare left right
  | [], _, _ => rfl
  | key :: base, left, right => by
      change (compare key key).then
        (compare (base ++ left) (base ++ right)) = _
      rw [ReflOrd.compare_self, compare_append base left right]
      rfl

/-! ## Locations above and below -/

theorem below?_eq_some_iff :
    ∀ {path ancestor below : Path},
      below? path ancestor = some below ↔ path = ancestor ++ below
  | path, [], below => by
      cases path <;> simp [below?]
  | [], _ :: _, below => by
      simp [below?]
  | first :: path, second :: ancestor, below => by
      by_cases same : first = second
      · simp [below?, same, @below?_eq_some_iff path ancestor below]
      · simp [below?, same]

@[simp]
theorem below?_append (base below : Path) :
    below? (base ++ below) base = some below :=
  below?_eq_some_iff.mpr rfl

@[simp]
theorem below?_self (path : Path) : below? path path = some [] :=
  below?_eq_some_iff.mpr (List.append_nil path).symm

theorem contains_iff {above path : Path} :
    contains above path = true ↔ ∃ below, path = above ++ below := by
  rw [contains, List.isPrefixOf_iff_prefix]
  constructor
  · rintro ⟨below, equality⟩
    exact ⟨below, equality.symm⟩
  · rintro ⟨below, equality⟩
    exact ⟨below, equality.symm⟩

@[simp]
theorem contains_append (base below : Path) :
    contains base (base ++ below) = true :=
  contains_iff.mpr ⟨below, rfl⟩

theorem below?_eq_none_iff {path above : Path} :
    below? path above = none ↔ contains above path = false := by
  rw [Option.eq_none_iff_forall_ne_some, Bool.eq_false_iff, Ne,
    contains_iff]
  simp only [ne_eq, below?_eq_some_iff, not_exists]

/-- Two locations at or above a common one are themselves in line. -/
theorem contains_or_contains
    {left right path : Path}
    (leftAbove : contains left path = true)
    (rightAbove : contains right path = true) :
    contains left right = true ∨ contains right left = true := by
  rw [contains, List.isPrefixOf_iff_prefix] at *
  rw [contains, List.isPrefixOf_iff_prefix]
  exact List.prefix_or_prefix_of_prefix leftAbove rightAbove

theorem contains_trans
    {upper middle lower : Path}
    (first : contains upper middle = true)
    (second : contains middle lower = true) :
    contains upper lower = true := by
  rw [contains, List.isPrefixOf_iff_prefix] at *
  exact first.trans second

end Path

/-! ## Scalars and priorities -/

instance : TransOrd Number :=
  inferInstanceAs (TransCmp (compareOn Number.orderKey))

namespace Scalar

/-- The place of a scalar among the kinds of scalars. -/
def rank : Scalar → Nat
  | .bool _ => 0
  | .number _ => 1
  | .text _ => 2

/-- The truth value of a scalar, and false for every other scalar. -/
def truth : Scalar → Bool
  | .bool value => value
  | .number _ | .text _ => false

/-- The number of a scalar, and zero for every other scalar. -/
def quantity : Scalar → Number
  | .number value => value
  | .bool _ | .text _ => .zero

/-- The text of a scalar, and the empty text for every other scalar. -/
def wording : Scalar → String
  | .text value => value
  | .bool _ | .number _ => ""

theorem compare_eq_compareLex :
    (compare : Scalar → Scalar → Ordering) =
      compareLex (compareOn rank)
        (compareLex (compareOn truth)
          (compareLex (compareOn quantity) (compareOn wording))) := by
  funext left right
  cases left with
  | bool left =>
      cases right with
      | bool right =>
          change compare left right =
            (compare left right).then .eq
          rw [Ordering.then_eq]
      | number _ => rfl
      | text _ => rfl
  | number left =>
      cases right with
      | bool _ => rfl
      | number right =>
          change compare left right =
            (compare left right).then .eq
          rw [Ordering.then_eq]
      | text _ => rfl
  | text left =>
      cases right with
      | bool _ => rfl
      | number _ => rfl
      | text _ => rfl

instance : TransOrd Scalar := by
  unfold TransOrd
  rw [compare_eq_compareLex]
  infer_instance

theorem beq_iff {left right : Scalar} :
    (left == right) = true ↔ compare left right = .eq := by
  change (compare left right == Ordering.eq) = true ↔ _
  exact beq_iff_eq

end Scalar

namespace Priority

/-- Priorities are ordered as their scalars are. -/
theorem compare_eq_compareOn :
    (compare : Priority → Priority → Ordering) =
      compareOn toScalar := by
  funext left right
  cases left <;> cases right <;> rfl

instance : TransOrd Priority := by
  unfold TransOrd
  rw [compare_eq_compareOn]
  infer_instance

theorem orderOptional_eq_compare :
    ∀ left right : Option Priority,
      orderOptional left right = compare left right
  | none, none => rfl
  | none, some _ => rfl
  | some _, none => rfl
  | some _, some _ => rfl

@[simp]
theorem orderOptional_self (priority : Option Priority) :
    orderOptional priority priority = .eq := by
  rw [orderOptional_eq_compare]
  exact ReflOrd.compare_self

theorem orderOptional_symm
    {left right : Option Priority}
    (equal : orderOptional left right = .eq) :
    orderOptional right left = .eq := by
  rw [orderOptional_eq_compare] at *
  exact OrientedCmp.eq_symm equal

theorem orderOptional_trans
    {left middle right : Option Priority}
    (first : orderOptional left middle = .eq)
    (second : orderOptional middle right = .eq) :
    orderOptional left right = .eq := by
  rw [orderOptional_eq_compare] at *
  exact TransCmp.eq_trans first second

/-- Equal scalars are equally fit as priorities. -/
theorem ofScalar?_congr
    {left right : Scalar} (equal : compare left right = .eq) :
    orderOptional (ofScalar? left) (ofScalar? right) = .eq := by
  cases left <;> cases right <;>
    first
    | rfl
    | exact equal

/-- Equal priorities show equal scalars. -/
theorem toScalar_congr
    {left right : Priority} (equal : compare left right = .eq) :
    compare left.toScalar right.toScalar = .eq := by
  rw [compare_eq_compareOn] at equal
  exact equal

end Priority

end Replica
