import Replica.Filter
import Replica.Proofs.Node.Canonical

/-!
# Sibling order

Every index is a total order that does not tell nodes apart that are the same. So a range has no
gaps, and the last sibling of an arrangement comes behind all the others.
-/

namespace Replica

open Std

namespace Node

/-- Nodes are ordered by their kind, and leaves then by their scalars. -/
theorem orderValues_eq_compareLex (left right : Node) :
    left.orderValues right =
      compareLex (compareOn rank) (compareOn value?) left right := by
  cases left with
  | leaf _ _ =>
      cases right with
      | leaf _ _ => rfl
      | branch children _ => cases children <;> rfl
  | branch children _ =>
      cases right with
      | leaf _ _ => cases children <;> rfl
      | branch others _ =>
          change compare _ _ = (compare _ _).then .eq
          rw [Ordering.then_eq]

theorem orderValues_of_equiv
    {left right : Node} (equal : left ≈ right) :
    left.orderValues right = .eq := by
  have sameRank : left.rank = right.rank := by
    unfold rank
    rw [isEmpty_congr equal, isLeaf_congr equal]
  have sameValue := value?_congr equal
  unfold orderValues
  rw [sameRank, ReflOrd.compare_self]
  generalize left.value? = value?, right.value? = other? at sameValue
  cases sameValue with
  | some same => exact same
  | none => rfl

end Node

namespace Index

/-- An index is a total order of siblings. -/
instance (index : Index) : TransCmp index.order := by
  cases index with
  | priority =>
      have lexicographic :
          order .priority =
            compareLex (compareOn (·.2.priority?)) (compareOn (·.1)) := by
        funext left right
        change (Priority.orderOptional _ _).then _ = _
        rw [Priority.orderOptional_eq_compare]
        rfl
      rw [lexicographic]
      infer_instance
  | key => exact inferInstanceAs (TransCmp (compareOn Prod.fst))
  | value =>
      have lexicographic :
          order .value =
            compareLex
              (compareLex (compareOn (·.2.rank)) (compareOn (·.2.value?)))
              (compareOn (·.1)) := by
        funext left right
        change (Node.orderValues _ _).then _ = _
        rw [Node.orderValues_eq_compareLex]
        rfl
      rw [lexicographic]
      infer_instance
  | child path =>
      have lexicographic :
          order (.child path) =
            compareLex
              (compareLex (compareOn fun entry => (entry.2.descendant path).rank)
                (compareOn fun entry => (entry.2.descendant path).value?))
              (compareOn (·.1)) := by
        funext left right
        change (Node.orderValues _ _).then _ = _
        rw [Node.orderValues_eq_compareLex]
        rfl
      rw [lexicographic]
      infer_instance

theorem order_of_equiv
    {node other : Node} (equal : node ≈ other) (index : Index) (key : Key) :
    index.order (key, node) (key, other) = .eq := by
  have sameAspect : index.orderNodes node other = .eq := by
    cases index with
    | priority => exact Node.priority?_congr equal
    | key => rfl
    | value => exact Node.orderValues_of_equiv equal
    | child path =>
        exact Node.orderValues_of_equiv (Node.descendant_congr equal path)
  unfold order
  rw [sameAspect]
  exact ReflOrd.compare_self

theorem atMost_iff {index : Index} {left right : Key × Node} :
    index.atMost left right = true ↔
      (index.order left right).isLE = true := by
  rw [atMost, bne_iff_ne]
  exact Ordering.ne_gt_iff_isLE

theorem pairwise_sort (index : Index) (siblings : List (Key × Node)) :
    (index.sort siblings).Pairwise fun left right =>
      (index.order left right).isLE = true := by
  refine (@List.pairwise_mergeSort _ index.atMost ?_ ?_
    siblings).imp atMost_iff.mp
  · intro left middle right first second
    rw [atMost_iff] at first second ⊢
    exact TransCmp.isLE_trans first second
  · intro left right
    rw [Bool.or_eq_true, atMost_iff, atMost_iff]
    cases order : index.order left right with
    | lt => exact .inl rfl
    | eq => exact .inl rfl
    | gt =>
        rw [OrientedCmp.lt_of_gt order]
        exact .inr rfl

/-- The children of a node stand in the order of the index. -/
theorem pairwise_sorted (node : Node) (index : Index) :
    (node.sorted index).Pairwise fun left right =>
      (index.order left right).isLE = true :=
  index.pairwise_sort node.children

/-- Siblings only tie under one key. -/
theorem key_eq_of_order
    {index : Index} {left right : Key × Node}
    (tie : index.order left right = .eq) : left.1 = right.1 :=
  LawfulEqCmp.eq_of_compare (Ordering.then_eq_eq.mp tie).2

/-- Siblings under different keys do not tie. -/
theorem order_eq_lt
    {index : Index} {left right : Key × Node}
    (different : left.1 ≠ right.1)
    (before : (index.order left right).isLE = true) :
    index.order left right = .lt :=
  (Ordering.isLE_iff_eq_lt_or_eq_eq.mp before).resolve_right
    fun tie => different (key_eq_of_order tie)

theorem perm_sorted (node : Node) (index : Index) :
    (node.sorted index).Perm node.children :=
  List.mergeSort_perm _ _

/-- No children of a canonical node tie. -/
theorem strict_sorted
    {node : Node} (canonical : node.Canonical) (index : Index) :
    (node.sorted index).Pairwise fun left right =>
      index.order left right = .lt := by
  have distinct : ((node.sorted index).map (·.1)).Nodup :=
    ((perm_sorted node index).map _).nodup_iff.mpr
      (Sorted.nodup_keys canonical.children_ascending)
  exact (List.pairwise_map.mp distinct).imp₂ (fun _ _ => order_eq_lt)
    (pairwise_sorted node index)

end Index

namespace Range

/-- A range does not tell nodes apart that are the same. -/
theorem contains_congr
    {node other : Node} (equal : node ≈ other) (range : Range) (key : Key) :
    range.contains (key, node) = range.contains (key, other) := by
  have same := range.index.order_of_equiv equal key
  have below (bound : Key × Node) :
      range.index.atMost bound (key, node) =
        range.index.atMost bound (key, other) := by
    rw [Index.atMost, Index.atMost, TransCmp.congr_right same]
  have above (bound : Key × Node) :
      range.index.atMost (key, node) bound =
        range.index.atMost (key, other) bound := by
    rw [Index.atMost, Index.atMost, TransCmp.congr_left same]
  simp only [contains, below, above]

/-- A sibling between two siblings in range is in range. -/
theorem contains_between
    {range : Range} {lower middle upper : Key × Node}
    (lowerInside : range.contains lower = true)
    (upperInside : range.contains upper = true)
    (first : (range.index.order lower middle).isLE = true)
    (second : (range.index.order middle upper).isLE = true) :
    range.contains middle = true := by
  rw [contains, Bool.and_eq_true, Option.all_eq_true, Option.all_eq_true]
    at *
  refine ⟨fun bound isLowest => ?_, fun bound isHighest => ?_⟩
  · have above := Index.atMost_iff.mp (lowerInside.1 bound isLowest)
    exact Index.atMost_iff.mpr (TransCmp.isLE_trans above first)
  · have below := Index.atMost_iff.mp (upperInside.2 bound isHighest)
    exact Index.atMost_iff.mpr (TransCmp.isLE_trans second below)

end Range

namespace Window

/-- The order of a window is that of its index or its reverse. -/
instance (window : Window) : TransCmp window.order := by
  obtain ⟨range, limit⟩ := window
  cases limit with
  | first _ => exact inferInstanceAs (TransCmp range.index.order)
  | last _ =>
      exact inferInstanceAs (TransCmp fun left right =>
        range.index.order right left)

theorem order_of_equiv
    {node other : Node} (equal : node ≈ other) (window : Window) (key : Key) :
    window.order (key, node) (key, other) = .eq := by
  obtain ⟨range, limit⟩ := window
  cases limit with
  | first _ => exact range.index.order_of_equiv equal key
  | last _ => exact range.index.order_of_equiv (Setoid.symm equal) key

theorem order_eq_lt
    {window : Window} {left right : Key × Node}
    (different : left.1 ≠ right.1)
    (before : (window.order left right).isLE = true) :
    window.order left right = .lt := by
  obtain ⟨range, limit⟩ := window
  cases limit with
  | first _ => exact Index.order_eq_lt different before
  | last _ => exact Index.order_eq_lt different.symm before

/-- A sibling between two siblings in the range of a window is in the range. -/
theorem contains_between
    {window : Window} {first middle last : Key × Node}
    (firstInside : window.range.contains first = true)
    (lastInside : window.range.contains last = true)
    (behind : (window.order first middle).isLE = true)
    (before : (window.order middle last).isLE = true) :
    window.range.contains middle = true := by
  obtain ⟨range, limit⟩ := window
  cases limit with
  | first _ => exact Range.contains_between firstInside lastInside behind before
  | last _ => exact Range.contains_between lastInside firstInside before behind

theorem pairwise_arrange (window : Window) (node : Node) :
    (window.arrange node).Pairwise fun left right =>
      (window.order left right).isLE = true := by
  obtain ⟨range, limit⟩ := window
  have sorted := Index.pairwise_sorted node range.index
  cases limit with
  | first _ => exact sorted
  | last _ => exact List.pairwise_reverse.mpr sorted

theorem strict_arrange
    {node : Node} (canonical : node.Canonical) (window : Window) :
    (window.arrange node).Pairwise fun left right =>
      window.order left right = .lt := by
  obtain ⟨range, limit⟩ := window
  have sorted := Index.strict_sorted canonical range.index
  cases limit with
  | first _ => exact sorted
  | last _ => exact List.pairwise_reverse.mpr sorted

theorem perm_arrange (window : Window) (node : Node) :
    (window.arrange node).Perm node.children := by
  have sorted := Index.perm_sorted node window.range.index
  unfold arrange
  split
  · exact sorted
  · exact (List.reverse_perm _).trans sorted

@[simp]
theorem mem_arrange
    {window : Window} {node : Node} {entry : Key × Node} :
    entry ∈ window.arrange node ↔ entry ∈ node.children :=
  (window.perm_arrange node).mem_iff

/-- No child of the node comes behind a sibling. -/
def Closes (window : Window) (node : Node) (sibling : Key × Node) : Prop :=
  ∀ entry ∈ node.children, (window.order entry sibling).isLE = true

theorem Closes.trans
    {window : Window} {node : Node} {sibling other : Key × Node}
    (closes : window.Closes node sibling)
    (before : (window.order sibling other).isLE = true) :
    window.Closes node other :=
  fun entry member => TransCmp.isLE_trans (closes entry member) before

theorem closes_of_getLast?
    {window : Window} {node : Node} {last : Key × Node}
    (isLast : (window.arrange node).getLast? = some last) :
    window.Closes node last := by
  intro entry member
  obtain ⟨others, arranged⟩ := List.getLast?_eq_some_iff.mp isLast
  have sorted := window.pairwise_arrange node
  have arrangedMember : entry ∈ window.arrange node :=
    mem_arrange.mpr member
  rw [arranged] at sorted arrangedMember
  rcases List.mem_append.mp arrangedMember with earlier | isEntry
  · exact (List.pairwise_append.mp sorted).2.2 entry earlier last
      (List.mem_singleton_self last)
  · rw [List.mem_singleton.mp isEntry]
    exact Ordering.isLE_of_eq_eq ReflCmp.compare_self

end Window

end Replica
