import Replica.Engine.Basic
import Replica.Proofs.Order

/-!
# The two orders of locations

Sites take an operation in the order of their paths, where a location comes before everything
below it, and the events are sorted from the bottom up, where it comes after. Both orders are
total. The second one mixes containment with the order of keys; it is the lexicographic one as
soon as the end of a path counts as a key above all others.
-/

namespace Replica

open Std

/-! ## Total orders -/

/-- A comparison that is a strict total order: exactly the equal locations compare as equal, two
locations compare the other way round in the opposite order, and what comes before is
transitive. -/
structure Path.Ranks (order : Path → Path → Ordering) : Prop where
  equal : ∀ left right, order left right = .eq ↔ left = right
  swap : ∀ left right, order right left = (order left right).swap
  trans : ∀ left middle right,
    order left middle = .lt → order middle right = .lt →
      order left right = .lt

theorem Path.ranks_of_laws
    (order : Path → Path → Ordering) [TransCmp order]
    [LawfulEqCmp order] : Path.Ranks order where
  equal := fun _ _ => LawfulEqCmp.compare_eq_iff_eq
  swap := fun _ _ => OrientedCmp.eq_swap
  trans := fun _ _ _ => TransCmp.lt_trans

/-! ## From the top down -/

namespace Path

private theorem contains_cons_cons
    (first second : Key) (above path : Path) :
    contains (first :: above) (second :: path) =
      (first == second && contains above path) :=
  List.isPrefixOf_cons_cons

/-- A location comes before everything below it. -/
theorem compare_of_contains
    {above path : Path} (contained : contains above path = true)
    (different : above ≠ path) : compare above path = .lt := by
  obtain ⟨below, rfl⟩ := contains_iff.mp contained
  cases below with
  | nil => exact absurd (List.append_nil above).symm different
  | cons key rest =>
      calc
        compare above (above ++ key :: rest) =
            compare (above ++ []) (above ++ key :: rest) := by
          rw [List.append_nil]
        _ = compare ([] : Path) (key :: rest) := compare_append above _ _
        _ = .lt := rfl

end Path

/-! ## From the bottom up -/

namespace Sites

/-- Below a common key the order is that of the rest, and different keys decide. -/
theorem bottomUp_cons_cons
    (first second : Key) (left right : Path) :
    bottomUp (first :: left) (second :: right) =
      (compare first second).then (bottomUp left right) := by
  unfold bottomUp
  rw [Path.contains_cons_cons, Path.contains_cons_cons]
  by_cases same : first = second
  · subst same
    have keys : compare first first = .eq := ReflOrd.compare_self
    have paths :
        compare (first :: left) (first :: right) = compare left right :=
      Path.compare_append [first] left right
    simp only [List.cons.injEq, true_and, beq_self_eq_true,
      Bool.true_and, keys, paths, Ordering.then]
  · -- Neither of the two locations contains the other, so the keys decide.
    have decided : compare first second ≠ .eq := fun equal =>
      same (LawfulEqOrd.eq_of_compare equal)
    have forward : (first == second) = false := beq_false_of_ne same
    have backward : (second == first) = false :=
      beq_false_of_ne (Ne.symm same)
    have paths :
        compare (first :: left) (second :: right) =
          (compare first second).then (compare left right) :=
      rfl
    rw [if_neg fun equal => same (List.cons.inj equal).1, forward,
      backward, paths]
    revert decided
    cases compare first second with
    | lt => exact fun _ => rfl
    | eq => exact fun decided => absurd rfl decided
    | gt => exact fun _ => rfl

/-- Orders keys and the end of a path, which comes after all of them. -/
def closing : Option Key → Option Key → Ordering :=
  compareLex (compareOn Option.isNone) (compareOn (·.getD default))

instance : TransCmp closing := by
  unfold closing
  infer_instance

def closed (path : Path) : List (Option Key) :=
  path.map some ++ [none]

/-- From the bottom up is the lexicographic order of the closed paths. -/
theorem bottomUp_eq_compareLex :
    ∀ left right : Path,
      bottomUp left right =
        List.compareLex closing (closed left) (closed right)
  | [], [] => rfl
  | [], _ :: _ => rfl
  | _ :: _, [] => rfl
  | first :: left, second :: right => by
      have keys :
          closing (some first) (some second) = compare first second :=
        rfl
      change _ = List.compareLex closing
        (some first :: closed left) (some second :: closed right)
      rw [bottomUp_cons_cons, List.compareLex_cons_cons, keys,
        bottomUp_eq_compareLex left right]

instance : TransCmp bottomUp where
  eq_swap := by
    simp only [bottomUp_eq_compareLex]
    exact OrientedCmp.eq_swap
  isLE_trans := by
    simp only [bottomUp_eq_compareLex]
    exact TransCmp.isLE_trans

instance : LawfulEqCmp bottomUp where
  compare_self := by
    intro path
    exact if_pos rfl
  eq_of_compare := by
    intro left right equal
    unfold bottomUp at equal
    split at equal
    · assumption
    · split at equal
      · cases equal
      · split at equal
        · cases equal
        · exact LawfulEqOrd.eq_of_compare equal

/-- Everything below a location comes before it. -/
theorem bottomUp_of_contains
    {above path : Path} (contained : Path.contains above path = true)
    (different : above ≠ path) : bottomUp path above = .lt := by
  have flipped : bottomUp above path = .gt := by
    unfold bottomUp
    rw [if_neg different, if_pos contained]
  exact OrientedCmp.lt_of_gt flipped

end Sites

end Replica
