import Mathlib.Data.Setoid.Basic
import Replica.Node.Basic
import Replica.Proofs.Order
import Replica.Proofs.Sorted

/-!
# Nodes that are the same

Being the same is an equivalence of nodes, and everything that can be seen of a node respects it.
-/

namespace Replica

open Std

namespace Node

/-- Induction over nodes: a branch may use the statement for all of its children. -/
@[elab_as_elim]
theorem induct
    {motive : Node → Prop}
    (leaf : ∀ value priority, motive (.leaf value priority))
    (branch : ∀ children priority,
      (∀ entry ∈ children, motive entry.2) →
        motive (.branch children priority)) :
    ∀ node, motive node := by
  intro node
  refine @Node.rec motive
    (fun children => ∀ entry ∈ children, motive entry.2)
    (fun entry => motive entry.2)
    leaf branch ?_ ?_ ?_ node
  · intro entry member
    cases member
  · intro head tail headHolds tailHolds entry member
    rcases List.mem_cons.mp member with headEqual | tailMember
    · exact headEqual ▸ headHolds
    · exact tailHolds entry tailMember
  · intro _ _ holds
    exact holds

/-! ## An equivalence -/

theorem sameAll_iff :
    ∀ {left right : List (Key × Node)},
      sameAll left right = true ↔
        List.Forall₂
          (fun a b => a.1 = b.1 ∧ a.2.same b.2 = true) left right
  | [], [] => by
      simp [sameAll]
  | [], _ :: _ => by
      simp [sameAll]
  | _ :: _, [] => by
      simp [sameAll]
  | (first, a) :: left, (second, b) :: right => by
      simp only [sameAll, Bool.and_eq_true, beq_iff_eq,
        List.forall₂_cons, @sameAll_iff left right, and_assoc]

@[simp]
theorem leaf_same_leaf
    {value other : Scalar} {priority otherPriority : Option Priority} :
    (leaf value priority).same (leaf other otherPriority) = true ↔
      Priority.orderOptional priority otherPriority = .eq ∧
        compare value other = .eq := by
  change (_ == Ordering.eq && value == other) = true ↔ _
  rw [Bool.and_eq_true, beq_iff_eq, Scalar.beq_iff]

@[simp]
theorem branch_same_branch
    {children others : List (Key × Node)}
    {priority otherPriority : Option Priority} :
    (branch children priority).same (branch others otherPriority) = true ↔
      Priority.orderOptional priority otherPriority = .eq ∧
        List.Forall₂
          (fun a b => a.1 = b.1 ∧ a.2.same b.2 = true) children others := by
  change (_ == Ordering.eq && sameAll children others) = true ↔ _
  rw [Bool.and_eq_true, beq_iff_eq, sameAll_iff]

theorem not_leaf_same_branch
    {value : Scalar} {priority otherPriority : Option Priority}
    {children : List (Key × Node)} :
    ¬ (leaf value priority).same (branch children otherPriority) = true :=
  Bool.false_ne_true

theorem not_branch_same_leaf
    {value : Scalar} {priority otherPriority : Option Priority}
    {children : List (Key × Node)} :
    ¬ (branch children otherPriority).same (leaf value priority) = true :=
  Bool.false_ne_true

@[simp]
theorem same_refl (node : Node) : node.same node = true := by
  induction node using induct with
  | leaf value priority =>
      exact leaf_same_leaf.mpr
        ⟨Priority.orderOptional_self priority, ReflOrd.compare_self⟩
  | branch children priority inductionHypothesis =>
      refine branch_same_branch.mpr
        ⟨Priority.orderOptional_self priority, ?_⟩
      exact List.forall₂_same.mpr
        fun entry member => ⟨rfl, inductionHypothesis entry member⟩

theorem same_symm
    {left right : Node} (equal : left.same right = true) :
    right.same left = true := by
  induction left using induct generalizing right with
  | leaf value priority =>
      cases right with
      | leaf _ _ =>
          obtain ⟨samePriority, sameValue⟩ := leaf_same_leaf.mp equal
          exact leaf_same_leaf.mpr
            ⟨Priority.orderOptional_symm samePriority,
              OrientedCmp.eq_symm sameValue⟩
      | branch _ _ => exact absurd equal not_leaf_same_branch
  | branch children priority inductionHypothesis =>
      cases right with
      | leaf _ _ => exact absurd equal not_branch_same_leaf
      | branch others _ =>
          obtain ⟨samePriority, related⟩ := branch_same_branch.mp equal
          refine branch_same_branch.mpr
            ⟨Priority.orderOptional_symm samePriority, ?_⟩
          clear equal samePriority
          induction related with
          | nil => exact List.Forall₂.nil
          | @cons a b _ _ head tail tailHypothesis =>
              refine List.Forall₂.cons
                ⟨head.1.symm,
                  inductionHypothesis a List.mem_cons_self head.2⟩
                (tailHypothesis ?_)
              intro entry member
              exact inductionHypothesis entry
                (List.mem_cons_of_mem a member)

theorem same_trans
    {left middle right : Node}
    (first : left.same middle = true)
    (second : middle.same right = true) :
    left.same right = true := by
  induction left using induct generalizing middle right with
  | leaf value priority =>
      cases middle with
      | branch _ _ => exact absurd first not_leaf_same_branch
      | leaf _ _ =>
          cases right with
          | branch _ _ => exact absurd second not_leaf_same_branch
          | leaf _ _ =>
              rw [leaf_same_leaf] at *
              exact ⟨Priority.orderOptional_trans first.1 second.1,
                TransCmp.eq_trans first.2 second.2⟩
  | branch children priority inductionHypothesis =>
      cases middle with
      | leaf _ _ => exact absurd first not_branch_same_leaf
      | branch middles _ =>
          cases right with
          | leaf _ _ => exact absurd second not_branch_same_leaf
          | branch others _ =>
              obtain ⟨firstPriority, firstChildren⟩ :=
                branch_same_branch.mp first
              obtain ⟨secondPriority, secondChildren⟩ :=
                branch_same_branch.mp second
              refine branch_same_branch.mpr
                ⟨Priority.orderOptional_trans
                  firstPriority secondPriority, ?_⟩
              clear first second firstPriority secondPriority
              induction firstChildren generalizing others with
              | nil =>
                  cases secondChildren
                  exact List.Forall₂.nil
              | @cons a b _ _ head tail tailHypothesis =>
                  cases secondChildren with
                  | cons otherHead otherTail =>
                      refine List.Forall₂.cons
                        ⟨head.1.trans otherHead.1,
                          inductionHypothesis a List.mem_cons_self
                            head.2 otherHead.2⟩
                        (tailHypothesis ?_ _ otherTail)
                      intro entry member
                      exact inductionHypothesis entry
                        (List.mem_cons_of_mem a member)

instance setoid : Setoid Node where
  r left right := left.same right = true
  iseqv := ⟨same_refl, same_symm, same_trans⟩

theorem equiv_iff {left right : Node} :
    left ≈ right ↔ left.same right = true :=
  Iff.rfl

/-! ## What the same nodes have in common -/

@[simp]
theorem equiv_leaf_iff
    {value other : Scalar} {priority otherPriority : Option Priority} :
    leaf value priority ≈ leaf other otherPriority ↔
      Priority.orderOptional priority otherPriority = .eq ∧
        compare value other = .eq :=
  leaf_same_leaf

@[simp]
theorem equiv_branch_iff
    {children others : List (Key × Node)}
    {priority otherPriority : Option Priority} :
    branch children priority ≈ branch others otherPriority ↔
      Priority.orderOptional priority otherPriority = .eq ∧
        List.Forall₂
          (fun a b => a.1 = b.1 ∧ a.2 ≈ b.2) children others :=
  branch_same_branch

theorem not_leaf_equiv_branch
    {value : Scalar} {priority otherPriority : Option Priority}
    {children : List (Key × Node)} :
    ¬ leaf value priority ≈ branch children otherPriority :=
  not_leaf_same_branch

theorem not_branch_equiv_leaf
    {value : Scalar} {priority otherPriority : Option Priority}
    {children : List (Key × Node)} :
    ¬ branch children otherPriority ≈ leaf value priority :=
  not_branch_same_leaf

theorem priority?_congr
    {left right : Node} (equal : left ≈ right) :
    Priority.orderOptional left.priority? right.priority? = .eq := by
  cases left <;> cases right
  · exact (equiv_leaf_iff.mp equal).1
  · exact absurd equal not_leaf_equiv_branch
  · exact absurd equal not_branch_equiv_leaf
  · exact (equiv_branch_iff.mp equal).1

/-- Leaf values of the same nodes are equal, and a branch has none. -/
theorem value?_congr
    {left right : Node} (equal : left ≈ right) :
    Option.Rel (fun a b => compare a b = .eq)
      left.value? right.value? := by
  cases left <;> cases right
  · exact Option.Rel.some (equiv_leaf_iff.mp equal).2
  · exact absurd equal not_leaf_equiv_branch
  · exact absurd equal not_branch_equiv_leaf
  · exact Option.Rel.none

theorem children_congr
    {left right : Node} (equal : left ≈ right) :
    List.Forall₂ (fun a b => a.1 = b.1 ∧ a.2 ≈ b.2)
      left.children right.children := by
  cases left <;> cases right
  · exact List.Forall₂.nil
  · exact absurd equal not_leaf_equiv_branch
  · exact absurd equal not_branch_equiv_leaf
  · exact (equiv_branch_iff.mp equal).2

theorem isLeaf_congr
    {left right : Node} (equal : left ≈ right) :
    left.isLeaf = right.isLeaf := by
  cases left <;> cases right
  · rfl
  · exact absurd equal not_leaf_equiv_branch
  · exact absurd equal not_branch_equiv_leaf
  · rfl

theorem isEmpty_congr
    {left right : Node} (equal : left ≈ right) :
    left.isEmpty = right.isEmpty := by
  cases left <;> cases right
  · rfl
  · exact absurd equal not_leaf_equiv_branch
  · exact absurd equal not_branch_equiv_leaf
  · have related := (equiv_branch_iff.mp equal).2
    cases related <;> rfl

theorem priorityNode_congr
    {left right : Node} (equal : left ≈ right) :
    left.priorityNode ≈ right.priorityNode := by
  have samePriority := priority?_congr equal
  unfold priorityNode
  generalize left.priority? = priority at *
  generalize right.priority? = other at *
  cases priority <;> cases other
  · exact Setoid.refl _
  · cases samePriority
  · cases samePriority
  · exact equiv_leaf_iff.mpr ⟨rfl, Priority.toScalar_congr samePriority⟩

theorem child_congr
    {left right : Node} (equal : left ≈ right) (key : Key) :
    left.child key ≈ right.child key := by
  unfold child
  split
  · exact priorityNode_congr equal
  · have related :=
      Sorted.find?_rel_of_forall₂ key (children_congr equal)
    generalize Sorted.find? key left.children = found at *
    generalize Sorted.find? key right.children = other at *
    cases related with
    | none => exact Setoid.refl _
    | some childEqual => exact childEqual

theorem descendant_congr
    {left right : Node} (equal : left ≈ right) :
    ∀ path : Path, left.descendant path ≈ right.descendant path := by
  intro path
  induction path generalizing left right with
  | nil => exact equal
  | cons key rest inductionHypothesis =>
      exact inductionHypothesis (child_congr equal key)

@[simp]
theorem descendant_append (node : Node) (upper lower : Path) :
    node.descendant (upper ++ lower) =
      (node.descendant upper).descendant lower := by
  induction upper generalizing node with
  | nil => rfl
  | cons key rest inductionHypothesis =>
      exact inductionHypothesis (node.child key)

end Node

end Replica
