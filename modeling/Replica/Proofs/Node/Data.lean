import Replica.Proofs.Node.Update

/-!
# Nodes that hold the same data

Holding the same data is coarser than being the same: priorities do not count. Reading respects
it, and so does writing, except that a priority written or lost leaves no trace.
-/

namespace Replica

open Std

namespace Node

theorem dataEqAll_iff :
    ∀ {left right : List (Key × Node)},
      dataEqAll left right = true ↔
        List.Forall₂
          (fun a b => a.1 = b.1 ∧ a.2.dataEq b.2 = true) left right
  | [], [] => by
      simp [dataEqAll]
  | [], _ :: _ => by
      simp [dataEqAll]
  | _ :: _, [] => by
      simp [dataEqAll]
  | (first, a) :: left, (second, b) :: right => by
      simp only [dataEqAll, Bool.and_eq_true, beq_iff_eq,
        List.forall₂_cons, @dataEqAll_iff left right, and_assoc]

@[simp]
theorem leaf_dataEq_leaf
    {value other : Scalar} {priority otherPriority : Option Priority} :
    (leaf value priority).dataEq (leaf other otherPriority) = true ↔
      compare value other = .eq :=
  Scalar.beq_iff

@[simp]
theorem branch_dataEq_branch
    {children others : List (Key × Node)}
    {priority otherPriority : Option Priority} :
    (branch children priority).dataEq (branch others otherPriority) = true ↔
      List.Forall₂
        (fun a b => a.1 = b.1 ∧ a.2.dataEq b.2 = true) children others :=
  dataEqAll_iff

theorem not_leaf_dataEq_branch
    {value : Scalar} {priority otherPriority : Option Priority}
    {children : List (Key × Node)} :
    ¬ (leaf value priority).dataEq (branch children otherPriority) = true :=
  Bool.false_ne_true

theorem not_branch_dataEq_leaf
    {value : Scalar} {priority otherPriority : Option Priority}
    {children : List (Key × Node)} :
    ¬ (branch children otherPriority).dataEq (leaf value priority) = true :=
  Bool.false_ne_true

theorem dataEq_of_equiv
    {left right : Node} (equal : left ≈ right) :
    left.dataEq right = true := by
  induction left using induct generalizing right with
  | leaf value priority =>
      cases right with
      | leaf _ _ => exact leaf_dataEq_leaf.mpr (equiv_leaf_iff.mp equal).2
      | branch _ _ => exact absurd equal not_leaf_equiv_branch
  | branch children priority inductionHypothesis =>
      cases right with
      | leaf _ _ => exact absurd equal not_branch_equiv_leaf
      | branch others _ =>
          have related := (equiv_branch_iff.mp equal).2
          refine branch_dataEq_branch.mpr ?_
          clear equal
          induction related with
          | nil => exact List.Forall₂.nil
          | @cons a b _ _ head tail tailHypothesis =>
              refine List.Forall₂.cons
                ⟨head.1, inductionHypothesis a List.mem_cons_self head.2⟩
                (tailHypothesis ?_)
              intro entry member
              exact inductionHypothesis entry
                (List.mem_cons_of_mem a member)

@[simp]
theorem dataEq_refl (node : Node) : node.dataEq node = true :=
  dataEq_of_equiv (Setoid.refl node)

theorem dataEq_trans
    {left middle right : Node}
    (first : left.dataEq middle = true)
    (second : middle.dataEq right = true) :
    left.dataEq right = true := by
  induction left using induct generalizing middle right with
  | leaf value priority =>
      cases middle with
      | branch _ _ => exact absurd first not_leaf_dataEq_branch
      | leaf _ _ =>
          cases right with
          | branch _ _ => exact absurd second not_leaf_dataEq_branch
          | leaf _ _ =>
              rw [leaf_dataEq_leaf] at *
              exact TransCmp.eq_trans first second
  | branch children priority inductionHypothesis =>
      cases middle with
      | leaf _ _ => exact absurd first not_branch_dataEq_leaf
      | branch middles _ =>
          cases right with
          | leaf _ _ => exact absurd second not_branch_dataEq_leaf
          | branch others _ =>
              have firstChildren := branch_dataEq_branch.mp first
              have secondChildren := branch_dataEq_branch.mp second
              refine branch_dataEq_branch.mpr ?_
              clear first second
              induction firstChildren generalizing others with
              | nil =>
                  cases secondChildren
                  exact List.Forall₂.nil
              | @cons a b _ _ head tail tailHypothesis =>
                  cases secondChildren with
                  | cons otherHead otherTail =>
                      refine List.Forall₂.cons
                        ⟨head.1.trans otherHead.1,
                          inductionHypothesis a List.mem_cons_self
                            head.2 otherHead.2⟩
                        (tailHypothesis ?_ _ otherTail)
                      intro entry member
                      exact inductionHypothesis entry
                        (List.mem_cons_of_mem a member)

theorem dataEq_symm
    {left right : Node} (equal : left.dataEq right = true) :
    right.dataEq left = true := by
  induction left using induct generalizing right with
  | leaf value priority =>
      cases right with
      | leaf _ _ =>
          exact leaf_dataEq_leaf.mpr
            (OrientedCmp.eq_symm (leaf_dataEq_leaf.mp equal))
      | branch _ _ => exact absurd equal not_leaf_dataEq_branch
  | branch children priority inductionHypothesis =>
      cases right with
      | leaf _ _ => exact absurd equal not_branch_dataEq_leaf
      | branch others _ =>
          have related := branch_dataEq_branch.mp equal
          refine branch_dataEq_branch.mpr ?_
          clear equal
          induction related with
          | nil => exact List.Forall₂.nil
          | @cons a b _ _ head tail tailHypothesis =>
              refine List.Forall₂.cons
                ⟨head.1.symm,
                  inductionHypothesis a List.mem_cons_self head.2⟩
                (tailHypothesis ?_)
              intro entry member
              exact inductionHypothesis entry
                (List.mem_cons_of_mem a member)

/-! ## Reading -/

theorem value?_of_dataEq
    {left right : Node} (equal : left.dataEq right = true) :
    Option.Rel (fun a b => compare a b = .eq)
      left.value? right.value? := by
  cases left <;> cases right
  · exact Option.Rel.some (leaf_dataEq_leaf.mp equal)
  · exact absurd equal not_leaf_dataEq_branch
  · exact absurd equal not_branch_dataEq_leaf
  · exact Option.Rel.none

theorem isEmpty_of_dataEq
    {left right : Node} (equal : left.dataEq right = true) :
    left.isEmpty = right.isEmpty := by
  cases left <;> cases right
  · rfl
  · exact absurd equal not_leaf_dataEq_branch
  · exact absurd equal not_branch_dataEq_leaf
  · have related := branch_dataEq_branch.mp equal
    cases related <;> rfl

theorem child_of_dataEq
    {left right : Node} (equal : left.dataEq right = true)
    {key : Key} (unreserved : key.isPriority = false) :
    (left.child key).dataEq (right.child key) = true := by
  have related : List.Forall₂
      (fun a b => a.1 = b.1 ∧ a.2.dataEq b.2 = true)
      left.children right.children := by
    cases left <;> cases right
    · exact List.Forall₂.nil
    · exact absurd equal not_leaf_dataEq_branch
    · exact absurd equal not_branch_dataEq_leaf
    · exact branch_dataEq_branch.mp equal
  have found : Option.Rel (fun a b => a.dataEq b = true)
      (Sorted.find? key left.children) (Sorted.find? key right.children) :=
    Sorted.find?_rel_of_forall₂ key related
  rw [child_of_not_priority unreserved, child_of_not_priority unreserved]
  generalize Sorted.find? key left.children = leftFound at *
  generalize Sorted.find? key right.children = rightFound at *
  cases found with
  | none => exact dataEq_refl empty
  | some childEqual => exact childEqual

/-- Canonical nodes with the same value hold the same data if their children do. -/
theorem dataEq_of_children
    {left right : Node}
    (leftCanonical : left.Canonical) (rightCanonical : right.Canonical)
    (sameValue :
      Option.Rel (fun a b => compare a b = .eq) left.value? right.value?)
    (sameChildren : ∀ key : Key, key.isPriority = false →
      (left.child key).dataEq (right.child key) = true) :
    left.dataEq right = true := by
  have related :=
    @forall₂_children (fun a b => a.dataEq b = true) _ _ leftCanonical
      rightCanonical
      (fun key unreserved =>
        isEmpty_of_dataEq (sameChildren key unreserved))
      sameChildren
  cases left <;> cases right
  · cases sameValue with
    | some equal => exact leaf_dataEq_leaf.mpr equal
  · cases sameValue
  · cases sameValue
  · exact branch_dataEq_branch.mpr related

/-- Nodes with the same children, where the first shows the second if that is a leaf, hold the same
data unless the first is a leaf over no data. -/
theorem dataEq_iff_of_children
    {node data : Node} (canonical : node.Canonical)
    (dataCanonical : data.Canonical)
    (sameChildren : ∀ key : Key, key.isPriority = false →
      node.child key ≈ data.child key)
    (sameLeaf : data.isLeaf = true → node ≈ data) :
    node.dataEq data = true ↔
      ¬ (node.isLeaf = true ∧ data.isEmpty = true) := by
  constructor
  · rintro equal ⟨leaf, noData⟩
    rw [← isEmpty_of_dataEq equal] at noData
    rw [((isEmpty_iff canonical).mp noData).1] at leaf
    cases leaf
  · intro noLeftover
    cases dataLeaf : data.isLeaf with
    | true => exact dataEq_of_equiv (sameLeaf dataLeaf)
    | false =>
        have branch :=
          isLeaf_eq_false_of_children dataCanonical sameChildren dataLeaf
            noLeftover
        refine dataEq_of_children canonical dataCanonical ?_
          fun key unreserved =>
            dataEq_of_equiv (sameChildren key unreserved)
        rw [value?_of_branch branch, value?_of_branch dataLeaf]
        exact Option.Rel.none

/-! ## Writing -/

theorem setChild_of_dataEq
    {left right leftChild rightChild : Node}
    (equal : left.dataEq right = true)
    (equalChild : leftChild.dataEq rightChild = true)
    (leftCanonical : left.Canonical) (rightCanonical : right.Canonical)
    (leftChildCanonical : leftChild.Canonical)
    (rightChildCanonical : rightChild.Canonical)
    {key : Key} (unreserved : key.isPriority = false) :
    (left.setChild key leftChild).dataEq
      (right.setChild key rightChild) = true := by
  refine dataEq_of_children (leftCanonical.setChild leftChildCanonical key)
    (rightCanonical.setChild rightChildCanonical key) ?_ ?_
  · rw [value?_setChild _ _ unreserved, value?_setChild _ _ unreserved,
      isEmpty_of_dataEq equalChild]
    split
    · exact value?_of_dataEq equal
    · exact Option.Rel.none
  · intro other otherUnreserved
    by_cases here : other = key
    · subst here
      have leftShown :=
        child_setChild_self leftCanonical leftChildCanonical otherUnreserved
      have rightShown :=
        child_setChild_self rightCanonical rightChildCanonical
          otherUnreserved
      exact dataEq_trans (dataEq_of_equiv leftShown)
        (dataEq_trans equalChild
          (dataEq_of_equiv (Setoid.symm rightShown)))
    · rw [child_setChild_of_ne leftCanonical _ otherUnreserved here,
        child_setChild_of_ne rightCanonical _ otherUnreserved here]
      exact child_of_dataEq equal otherUnreserved

theorem setDescendant_of_dataEq
    {left right replacement : Node} (equal : left.dataEq right = true)
    (leftCanonical : left.Canonical) (rightCanonical : right.Canonical)
    (canonical : replacement.Canonical) (path : Path) :
    (left.setDescendant path replacement).dataEq
      (right.setDescendant path replacement) = true := by
  induction path generalizing left right with
  | nil => exact dataEq_refl replacement
  | cons key rest inductionHypothesis =>
      by_cases reserved : key.isPriority = true
      · rw [setDescendant_cons_of_priority reserved,
          setDescendant_cons_of_priority reserved]
        have leftPriority := leftCanonical.setPriority
          (replacement.value?.bind Priority.ofScalar?)
        have rightPriority := rightCanonical.setPriority
          (replacement.value?.bind Priority.ofScalar?)
        refine dataEq_of_children leftPriority rightPriority ?_ ?_
        · rw [value?_setPriority, value?_setPriority]
          exact value?_of_dataEq equal
        · intro other unreserved
          rw [child_setPriority_of_not_priority _ _ unreserved,
            child_setPriority_of_not_priority _ _ unreserved]
          exact child_of_dataEq equal unreserved
      · have unreserved : key.isPriority = false := by
          simpa using reserved
        rw [setDescendant_cons_of_not_priority unreserved,
          setDescendant_cons_of_not_priority unreserved]
        exact setChild_of_dataEq equal
          (inductionHypothesis (child_of_dataEq equal unreserved)
            (leftCanonical.child key) (rightCanonical.child key))
          leftCanonical rightCanonical
          ((leftCanonical.child key).setDescendant canonical rest)
          ((rightCanonical.child key).setDescendant canonical rest)
          unreserved

end Node

end Replica
