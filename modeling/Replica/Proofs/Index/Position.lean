import Replica.Proofs.Filter.Range
import Replica.View.Event

/-!
# Positions of siblings

Siblings compare by what the index looks at in them, and where that ties by their keys. A child
that changes without a move compares with every sibling as before, so it keeps its position.
-/

namespace Replica

open Std

namespace Node

/-- Values that count as equal: nothing and nothing, leaves with equal scalars, and any two
branches with data. -/
inductive Ties : Node → Node → Prop
  | nothing {left right : Node} (leftNothing : left.isEmpty = true)
      (rightNothing : right.isEmpty = true) : Ties left right
  | leaves {value other : Scalar} {priority otherPriority : Option Priority}
      (equal : compare value other = .eq) :
      Ties (leaf value priority) (leaf other otherPriority)
  | branches {entry other : Key × Node} {rest others : List (Key × Node)}
      {priority otherPriority : Option Priority} :
      Ties (branch (entry :: rest) priority)
        (branch (other :: others) otherPriority)

private theorem orderValues_eq_iff {left right : Node} :
    left.orderValues right = .eq ↔ left.Ties right := by
  constructor
  · intro tie
    cases left with
    | leaf value _ =>
        cases right with
        | leaf other _ => exact .leaves tie
        | branch others _ => cases others <;> cases tie
    | branch children _ =>
        cases right with
        | leaf _ _ => cases children <;> cases tie
        | branch others _ =>
            cases children with
            | nil =>
                cases others with
                | nil => exact .nothing rfl rfl
                | cons _ _ => cases tie
            | cons _ _ =>
                cases others with
                | nil => cases tie
                | cons _ _ => exact .branches
  · intro ties
    cases ties with
    | nothing leftNothing rightNothing =>
        rw [orderValues_of_isEmpty leftNothing]
        cases right with
        | leaf _ _ => cases rightNothing
        | branch others _ =>
            cases List.isEmpty_iff.mp rightNothing
            rfl
    | leaves equal => exact equal
    | branches => rfl

end Node

namespace Index

/-- Every index compares values: those of what it looks at. -/
theorem orderNodes_eq_orderValues
    (index : Index) (left right : Node) :
    index.orderNodes left right =
      (index.aspect left).orderValues (index.aspect right) := by
  cases index with
  | priority =>
      change Priority.orderOptional left.priority? right.priority? =
        left.priorityNode.orderValues right.priorityNode
      unfold Node.priorityNode
      rcases left.priority? with _ | ⟨_ | _⟩ <;>
        rcases right.priority? with _ | ⟨_ | _⟩ <;> rfl
  | key => rfl
  | value => rfl
  | child path => rfl

private theorem moves_eq_false_iff
    {index : Index} {old new : Node} :
    index.moves old new = false ↔ index.orderNodes old new = .eq := by
  rw [moves, bne_eq_false_iff_eq]

/-- A change without a move is one after which the child compares with every sibling as before. -/
theorem moves_eq_false_iff_order
    {index : Index} {old new : Node} :
    index.moves old new = false ↔
      ∀ (key : Key) (other : Key × Node),
        index.order (key, new) other = index.order (key, old) other := by
  rw [moves_eq_false_iff]
  constructor
  · intro tie key other
    have same : index.order (key, old) (key, new) = .eq :=
      Ordering.then_eq_eq.mpr ⟨tie, ReflOrd.compare_self⟩
    exact (TransCmp.congr_left same).symm
  · intro alike
    have same : index.order (.priority, old) (.priority, new) = .eq :=
      (alike .priority (.priority, new)).symm.trans ReflCmp.compare_self
    exact (Ordering.then_eq_eq.mp same).1

private theorem moves_self (index : Index) (node : Node) :
    index.moves node node = false :=
  moves_eq_false_iff_order.mpr fun _ _ => rfl

/-- Siblings that change without a move stay in the same order. -/
theorem keys_sort_of_forall₂
    {index : Index} {siblings others : List (Key × Node)}
    (related : List.Forall₂
      (fun a b => a.1 = b.1 ∧ index.moves a.2 b.2 = false)
      siblings others) :
    (index.sort siblings).map (·.1) = (index.sort others).map (·.1) := by
  have sameLength := related.length_eq
  have alike {pair : (Key × Node) × (Key × Node)}
      (member : pair ∈ siblings.zip others) :
      index.order pair.1 pair.2 = .eq := by
    obtain ⟨sameKey, unmoved⟩ :=
      (List.forall₂_iff_zip.mp related).2 member
    refine Ordering.then_eq_eq.mpr ⟨moves_eq_false_iff.mp unmoved, ?_⟩
    rw [sameKey]
    exact ReflOrd.compare_self
  -- Both lists are read off the pairs of siblings, which both orders sort alike.
  have sortedFirst :
      ((siblings.zip others).mergeSort
        fun a b => index.atMost a.1 b.1).map Prod.fst =
        index.sort siblings := by
    rw [List.map_mergeSort (s := index.atMost) fun _ _ _ _ => rfl,
      List.map_fst_zip sameLength.le]
    rfl
  have sortedSecond :
      ((siblings.zip others).mergeSort
        fun a b => index.atMost a.1 b.1).map Prod.snd =
        index.sort others := by
    rw [List.map_mergeSort (s := index.atMost) ?_,
      List.map_snd_zip sameLength.ge]
    · rfl
    · intro a first b second
      rw [atMost, atMost, TransCmp.congr_left (alike first),
        TransCmp.congr_right (alike second)]
  rw [← sortedFirst, ← sortedSecond, List.map_map, List.map_map]
  refine List.map_congr_left fun pair member => ?_
  exact ((List.forall₂_iff_zip.mp related).2
    (List.mem_mergeSort.mp member)).1

/-- A child of a node that is replaced without a move keeps its position. -/
theorem keys_sorted_setChild
    {index : Index} {node newChild : Node} (canonical : node.Canonical)
    (newCanonical : newChild.Canonical) {key : Key}
    (unreserved : key.isPriority = false)
    (held : node.hasChild key = true) (present : newChild.isEmpty = false)
    (unmoved : index.moves (node.child key) newChild = false) :
    ((node.setChild key newChild).sorted index).map (·.1) =
      (node.sorted index).map (·.1) := by
  have stored := Node.child_setChild_self canonical newCanonical unreserved
  refine (keys_sort_of_forall₂ (@Node.forall₂_children
    (fun a b => index.moves a b = false) _ _ canonical
    (canonical.setChild newCanonical key) ?_ ?_)).symm
  · intro other otherUnreserved
    by_cases here : other = key
    · subst here
      rw [Node.hasChild_eq_not_isEmpty canonical unreserved] at held
      rw [Node.isEmpty_congr stored, present]
      simpa using held
    · rw [Node.child_setChild_of_ne canonical newChild otherUnreserved here]
  · intro other otherUnreserved
    by_cases here : other = key
    · subst here
      refine moves_eq_false_iff_order.mpr fun name sibling => ?_
      rw [TransCmp.congr_left (index.order_of_equiv stored name)]
      exact moves_eq_false_iff_order.mp unmoved name sibling
    · rw [Node.child_setChild_of_ne canonical newChild otherUnreserved here]
      exact moves_self index _

/-- What it takes for an index to give siblings their positions. -/
structure Positions (index : Index) : Prop where
  /-- Two siblings compare the other way round from the other side. -/
  antisymmetric : ∀ left right : Key × Node,
    index.order right left = (index.order left right).swap
  /-- Siblings in order stay so when one between them is left out. -/
  transitive : ∀ left middle right : Key × Node,
    (index.order left middle).isLE = true →
      (index.order middle right).isLE = true →
        (index.order left right).isLE = true
  /-- Siblings under different keys do not tie. -/
  apart : ∀ left right : Key × Node,
    left.1 ≠ right.1 → index.order left right ≠ .eq
  /-- Where the index sees equal values, the keys decide. -/
  decided : ∀ left right : Key × Node,
    (index.aspect left.2).Ties (index.aspect right.2) →
      index.order left right = compare left.1 right.1
  /-- A child that changes without a move compares with every sibling as before. -/
  unmoved : ∀ old new : Node, index.moves old new = false →
    ∀ (key : Key) (other : Key × Node),
      index.order (key, new) other = index.order (key, old) other
  /-- A child whose change tells no move keeps its position among any siblings. -/
  kept : ∀ (key : Key) (old new : Node),
    (Change.changed key new old).move? index = none →
      ∀ before after : List (Key × Node),
        (index.sort (before ++ (key, new) :: after)).map (·.1) =
          (index.sort (before ++ (key, old) :: after)).map (·.1)

private theorem move?_changed_eq_none_iff
    {index : Index} {key : Key} {node old : Node} :
    (Change.changed key node old).move? index = none ↔
      index.moves old node = false := by
  rw [Change.move?]
  cases moves : index.moves old node with
  | false => exact ⟨fun _ => rfl, fun _ => rfl⟩
  | true => exact ⟨nofun, nofun⟩

/-- Every index gives siblings their positions. -/
theorem positions (index : Index) : index.Positions where
  antisymmetric _ _ := OrientedCmp.eq_swap
  transitive _ _ _ first second := TransCmp.isLE_trans first second
  apart _ _ different tie := different (key_eq_of_order tie)
  decided left right ties := by
    rw [order, orderNodes_eq_orderValues,
      Node.orderValues_eq_iff.mpr ties]
    rfl
  unmoved _ _ still := moves_eq_false_iff_order.mp still
  kept key old new still before after := by
    rw [move?_changed_eq_none_iff] at still
    have unchanged (siblings : List (Key × Node)) :
        List.Forall₂ (fun a b => a.1 = b.1 ∧ index.moves a.2 b.2 = false)
          siblings siblings :=
      List.forall₂_same.mpr fun entry _ => ⟨rfl, index.moves_self entry.2⟩
    have related :
        List.Forall₂ (fun a b => a.1 = b.1 ∧ index.moves a.2 b.2 = false)
          (before ++ (key, old) :: after) (before ++ (key, new) :: after) :=
      List.rel_append (unchanged before)
        (List.Forall₂.cons ⟨rfl, still⟩ (unchanged after))
    exact (keys_sort_of_forall₂ related).symm

end Index

end Replica
