import Mathlib
import Replica.Proofs.Index
import Replica.Proofs.Key
import Replica.Proofs.Node.Update
import Replica.Proofs.Query

/-!
# What lies in a range

The ends of a range are siblings that are made up from the bounds of a selection. A child whose key
is fit for data compares with them as the bounds say: by key, or by the value that the index looks
at and then by the key of the bound. A bound without a key takes in all children that tie with it.
-/

namespace Replica

open Std

/-! ## The ends of the key order -/

namespace Key

variable {key : Key} (valid : key.isValid = true)

include valid

@[simp]
private theorem compare_least : compare least key = .lt := by
  have other : key ≠ least := fun same =>
    text_ne_of_isValid valid (by decide : least.isValid = false)
      (congrArg text same)
  have above : compare least.band key.band = .lt := by
    have lowest : least.band = 0 := if_pos rfl
    rw [lowest, Nat.compare_eq_lt, band, if_neg other]
    split
    · exact Nat.zero_lt_succ _
    · split <;> exact Nat.zero_lt_succ _
  change (compare least.band key.band).then _ = _
  rw [above]
  rfl

@[simp]
private theorem compare_greatest : compare greatest key = .gt := by
  have other : key ≠ greatest := fun same =>
    text_ne_of_isValid valid (by decide : greatest.isValid = false)
      (congrArg text same)
  have below : compare greatest.band key.band = .gt := by
    have highest : greatest.band = 3 := by decide
    rw [highest, Nat.compare_eq_gt, band]
    split
    · decide
    · split <;> decide
  change (compare greatest.band key.band).then _ = _
  rw [below]
  rfl

end Key

/-! ## Made-up siblings -/

namespace Node

/-- A value that is planted into nothing is found again, and nothing is planted as nothing. -/
theorem descendant_setDescendant_empty
    {path : Path} (unreserved : path.Unreserved) (value : Node) :
    let planted := empty.setDescendant path value
    planted.isEmpty = value.isEmpty ∧
      (planted.descendant path).isEmpty = value.isEmpty ∧
      (value.isEmpty = false → planted.descendant path = value) := by
  induction path with
  | nil => exact ⟨rfl, rfl, fun _ => rfl⟩
  | cons key rest inductionHypothesis =>
      obtain ⟨sameKind, _, found⟩ := inductionHypothesis unreserved.tail
      dsimp only
      rw [setDescendant_cons_of_not_priority unreserved.head, child_empty]
      generalize empty.setDescendant rest value = planted at sameKind found
      have stored : empty.setChild key planted =
          if planted.isEmpty then empty else .branch [(key, planted)] none := by
        unfold setChild
        rw [if_neg (by simp [unreserved.head])]
        rfl
      rw [stored, sameKind]
      cases noData : value.isEmpty with
      | true =>
          refine ⟨rfl, ?_, nofun⟩
          rw [if_pos rfl, descendant_empty]
          rfl
      | false =>
          have shown : (branch [(key, planted)] none).child key = planted := by
            rw [child, if_neg (by simp [unreserved.head])]
            exact congrArg (Option.getD · empty)
              (Sorted.find?_cons_self key planted [])
          have foundBelow :
              (branch [(key, planted)] none).descendant (key :: rest) =
                value := by
            rw [descendant, shown, found noData]
          rw [if_neg Bool.false_ne_true, foundBelow]
          exact ⟨rfl, noData, fun _ => rfl⟩

/-- Whatever it looks like, no data is ordered before all data. -/
theorem orderValues_of_isEmpty
    {node : Node} (noData : node.isEmpty = true) (other : Node) :
    node.orderValues other = empty.orderValues other := by
  cases node with
  | leaf _ _ => cases noData
  | branch children _ =>
      cases List.isEmpty_iff.mp noData
      rfl

/-- A priority is ordered like the leaf that shows it. -/
theorem orderValues_priorityNode
    {value : Node} (simple : value.Simple)
    (noBoolean : ∀ content, value.value? ≠ some (.bool content))
    (child : Node) :
    Priority.orderOptional (value.value?.bind Priority.ofScalar?)
        child.priority? =
      value.orderValues child.priorityNode := by
  rw [priorityNode]
  cases value with
  | leaf scalar _ =>
      cases scalar with
      | bool content => exact absurd rfl (noBoolean content)
      | number _ =>
          rcases child.priority? with _ | ⟨_ | _⟩ <;> rfl
      | text _ =>
          rcases child.priority? with _ | ⟨_ | _⟩ <;> rfl
  | branch children _ =>
      obtain noData | isLeaf := simple
      · cases List.isEmpty_iff.mp noData
        rcases child.priority? with _ | ⟨_ | _⟩ <;> rfl
      · cases isLeaf

end Node

/-- What an index looks at in a child: the priority as a leaf, the child itself, or what stands
below it. The key order looks at nothing in the child. -/
def Index.aspect : Index → Node → Node
  | .priority, node => node.priorityNode
  | .key, _ => .empty
  | .value, node => node
  | .child path, node => node.descendant path

namespace Bound

/-- How a bound compares with a sibling. Under the key order the text of the bound compares with
the key. Otherwise the value of the bound compares with what the index looks at, and where they tie
the key of the bound decides, if it has one. -/
def against (index : Index) (bound : Bound) (sibling : Key × Node) :
    Ordering :=
  match index with
  | .key =>
      match bound.value.value? with
      | some (.text text) => compare (⟨text⟩ : Key) sibling.1
      | _ => .eq
  | _ =>
      (bound.value.orderValues (index.aspect sibling.2)).then
        (bound.key?.elim .eq (compare · sibling.1))

/-- The content of a bound that makes sense under an index. -/
structure Fits (index : Index) (bound : Bound) : Prop where
  simple : bound.value.Simple
  text : index = .key → ∃ text, bound.value.value? = some (.text text)
  noBoolean : index = .priority →
    ∀ content, bound.value.value? ≠ some (.bool content)

variable {index : Index} {bound : Bound}

private theorem fits_of_fault? (sound : bound.fault? index = none) :
    bound.Fits index := by
  have simple := simple_of_fault? sound
  unfold fault? at sound
  split at sound
  · cases sound
  · refine ⟨simple, ?_, ?_⟩
    · rintro rfl
      dsimp only at sound
      split at sound
      · cases sound
      · split at sound
        · rename_i text isText
          exact ⟨text, isText⟩
        · cases sound
    · rintro rfl content isBoolean
      dsimp only at sound
      rw [isBoolean] at sound
      cases sound

/-- The made-up sibling has the value of the bound where the index looks. -/
theorem orderNodes_bound
    (fits : bound.Fits index) (ordersNodes : index ≠ .key)
    (plain : ∀ path, index = .child path → path.Unreserved)
    (name : Key) (child : Node) :
    index.orderNodes (index.bound bound.value name).2 child =
      bound.value.orderValues (index.aspect child) := by
  cases index with
  | key => exact absurd rfl ordersNodes
  | value => rfl
  | priority =>
      rw [Index.aspect, ← Node.orderValues_priorityNode fits.simple
        (fits.noBoolean rfl)]
      change Priority.orderOptional (Node.setPriority _ _).priority? _ = _
      congr 1
      cases bound.value.value?.bind Priority.ofScalar? <;> rfl
  | child path =>
      obtain ⟨_, sameKind, found⟩ :=
        Node.descendant_setDescendant_empty (plain path rfl) bound.value
      change ((Node.empty.setDescendant path bound.value).descendant
        path).orderValues _ = _
      cases noData : bound.value.isEmpty with
      | false =>
          rw [found noData]
          rfl
      | true =>
          rw [noData] at sameKind
          rw [Node.orderValues_of_isEmpty sameKind,
            ← Node.orderValues_of_isEmpty noData]
          rfl

private theorem order_bound_key
    {text : String} (isText : bound.value.value? = some (.text text))
    (name : Key) (sibling : Key × Node) :
    Index.key.order (Index.key.bound bound.value name) sibling =
      bound.against .key sibling := by
  rw [Index.order, Index.bound, against, isText]
  rfl

/-- The sibling that is made up for a bound compares as the bound does. Only where a bound without a
key ties, the key that is filled in decides. -/
theorem order_bound
    (fits : bound.Fits index)
    (plain : ∀ path, index = .child path → path.Unreserved)
    (filled : Key) (sibling : Key × Node) :
    let order :=
      index.order (index.bound bound.value (bound.key?.getD filled)) sibling
    order = bound.against index sibling ∨
      bound.against index sibling = .eq ∧
        order = compare filled sibling.1 := by
  by_cases byKey : index = .key
  · subst byKey
    obtain ⟨text, isText⟩ := fits.text rfl
    exact .inl (order_bound_key isText _ sibling)
  · have named (name : Key) : (index.bound bound.value name).1 = name := by
      cases index with
      | key => exact absurd rfl byKey
      | _ => rfl
    have compared : bound.against index sibling =
        (bound.value.orderValues (index.aspect sibling.2)).then
          (bound.key?.elim .eq (compare · sibling.1)) := by
      cases index with
      | key => exact absurd rfl byKey
      | _ => rfl
    dsimp only
    rw [Index.order, orderNodes_bound fits byKey plain, named, compared]
    cases bound.key? with
    | some _ => exact .inl rfl
    | none =>
        cases bound.value.orderValues (index.aspect sibling.2) with
        | eq => exact .inr ⟨rfl, rfl⟩
        | lt => exact .inl rfl
        | gt => exact .inl rfl

/-- A key that is filled in on one side of a sibling does not bring the bound to the other side. -/
theorem order_bound_ne_iff
    (fits : bound.Fits index)
    (plain : ∀ path, index = .child path → path.Unreserved)
    {filled : Key} {sibling : Key × Node} {outside : Ordering}
    (inside : compare filled sibling.1 ≠ outside) (apart : .eq ≠ outside) :
    index.order (index.bound bound.value (bound.key?.getD filled))
        sibling ≠ outside ↔
      bound.against index sibling ≠ outside := by
  rcases order_bound fits plain filled sibling with same | ⟨tie, decided⟩
  · rw [same]
  · rw [tie, decided]
    exact iff_of_true inside apart

end Bound

namespace Selection

variable {selection : Selection}

private theorem fits_of_validate
    (valid : selection.validate = .ok ()) {bound : Bound}
    (held : selection.lower? = some bound ∨
      selection.upper? = some bound) : bound.Fits selection.index := by
  have sound : selection.fault? = none := by
    unfold validate at valid
    split at valid
    · cases valid
    · assumption
  exact Bound.fits_of_fault? (fault?_of_held sound held)

/-- Under a selection that makes sense, a child is in range exactly if the lower bound does not come
behind it and the upper bound does not come before it. A sibling between two siblings in range is in
range. -/
theorem range_reads_bounds
    (valid : selection.validate = .ok ())
    (plain : ∀ path, selection.index = .child path → path.Unreserved) :
    (∀ (key : Key) (child : Node), key.isValid = true →
      (selection.range.contains (key, child) = true ↔
        (∀ bound ∈ selection.lower?,
          bound.against selection.index (key, child) ≠ .gt) ∧
        ∀ bound ∈ selection.upper?,
          bound.against selection.index (key, child) ≠ .lt)) ∧
    ∀ lower middle upper : Key × Node,
      selection.index.order lower middle = .lt →
      selection.index.order middle upper = .lt →
      selection.range.contains lower = true →
      selection.range.contains upper = true →
      selection.range.contains middle = true := by
  constructor
  · intro key child fit
    have lowest : compare Key.least key ≠ .gt := by
      rw [Key.compare_least fit]
      exact nofun
    have highest : compare Key.greatest key ≠ .lt := by
      rw [Key.compare_greatest fit]
      exact nofun
    rw [Range.contains, Bool.and_eq_true, range, lowest?, highest?,
      Option.all_map, Option.all_map, Option.all_eq_true, Option.all_eq_true]
    refine and_congr (forall₂_congr fun bound isLower => ?_)
      (forall₂_congr fun bound isUpper => ?_)
    · refine bne_iff_ne.trans ?_
      exact Bound.order_bound_ne_iff
        (fits_of_validate valid (.inl isLower)) plain lowest (by decide)
    · refine (bne_iff_ne.trans OrientedCmp.gt_iff_lt.not).trans ?_
      exact Bound.order_bound_ne_iff
        (fits_of_validate valid (.inr isUpper)) plain highest (by decide)
  · intro lower middle upper first second lowerInside upperInside
    exact Range.contains_between lowerInside upperInside
      (Ordering.isLE_of_eq_lt first) (Ordering.isLE_of_eq_lt second)

def fromGreater : Bound := ⟨.ofScalar (.bool true), none⟩

def greaterToB : Bound := ⟨.ofScalar (.bool true), some ⟨"b"⟩⟩

/-- The children between the two bounds, by the value that they have below `x`. -/
def greaterUpToB : Selection where
  index := .child [⟨"x"⟩]
  lower? := some fromGreater
  upper? := some greaterToB

def greaterBelow : Node := .branch [(⟨"x"⟩, .ofScalar (.bool true))] none

/-- The lower bound takes in all children that tie with it, the upper bound those up to its key. -/
theorem range_reads_bounds_tie :
    greaterUpToB.range.contains (⟨"a"⟩, greaterBelow) = true ∧
      greaterUpToB.range.contains (⟨"c"⟩, greaterBelow) = false := by
  have plain (path : Path) (isPath : greaterUpToB.index = .child path) :
      path.Unreserved := by
    cases isPath
    exact Path.unreserved_singleton (by decide)
  obtain ⟨reads, _⟩ := @range_reads_bounds greaterUpToB rfl plain
  have tie : fromGreater.against greaterUpToB.index (⟨"a"⟩, greaterBelow) =
      .eq := by
    cbv
  have behind : greaterToB.against greaterUpToB.index (⟨"a"⟩, greaterBelow) =
      .gt := by
    cbv
  have before : greaterToB.against greaterUpToB.index (⟨"c"⟩, greaterBelow) =
      .lt := by
    cbv
  constructor
  · refine (reads ⟨"a"⟩ greaterBelow (by decide)).mpr
      ⟨fun bound isLower => ?_, fun bound isUpper => ?_⟩
    · cases isLower
      rw [tie]
      decide
    · cases isUpper
      rw [behind]
      decide
  · refine Bool.eq_false_iff.mpr fun inside => ?_
    have inRange := (reads ⟨"c"⟩ greaterBelow (by decide)).mp inside
    exact inRange.2 greaterToB rfl before

end Selection

end Replica
