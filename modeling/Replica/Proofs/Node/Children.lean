import Replica.Proofs.Node.Update

/-!
# Children put in one after the other

A node shows the children that were put in under their keys, and under all other keys what it
showed before. The children of a node make a branch with the same children.
-/

namespace Replica.Node

theorem child_foldl_setChild_of_absent
    {node : Node} (canonical : node.Canonical)
    {entries : List (Key × Node)}
    (entriesCanonical : ∀ entry ∈ entries, entry.2.Canonical)
    {key : Key} (unreserved : key.isPriority = false)
    (absent : key ∉ entries.map (·.1)) :
    (entries.foldl (fun all entry => all.setChild entry.1 entry.2)
      node).child key = node.child key := by
  induction entries generalizing node with
  | nil => rfl
  | cons entry rest inductionHypothesis =>
      obtain ⟨first, others⟩ := List.forall_mem_cons.mp entriesCanonical
      rw [List.map_cons, List.mem_cons, not_or] at absent
      rw [List.foldl_cons, inductionHypothesis
        (canonical.setChild first entry.1) others absent.2]
      exact child_setChild_of_ne canonical entry.2 unreserved absent.1

theorem child_foldl_setChild_of_mem
    {node : Node} (canonical : node.Canonical)
    {entries : List (Key × Node)} (distinct : (entries.map (·.1)).Nodup)
    (entriesCanonical : ∀ entry ∈ entries, entry.2.Canonical)
    {entry : Key × Node} (member : entry ∈ entries)
    (unreserved : entry.1.isPriority = false) :
    (entries.foldl (fun all entry => all.setChild entry.1 entry.2)
      node).child entry.1 ≈ entry.2 := by
  induction entries generalizing node with
  | nil => cases member
  | cons first rest inductionHypothesis =>
      obtain ⟨firstCanonical, others⟩ :=
        List.forall_mem_cons.mp entriesCanonical
      obtain ⟨onlyFirst, restDistinct⟩ := List.nodup_cons.mp distinct
      have placed := canonical.setChild firstCanonical first.1
      rcases List.mem_cons.mp member with rfl | later
      · rw [List.foldl_cons, child_foldl_setChild_of_absent placed others
          unreserved onlyFirst]
        exact child_setChild_self canonical firstCanonical unreserved
      · exact inductionHypothesis placed restDistinct others later

theorem ofChildren_of_present
    {entries : List (Key × Node)}
    (present : ∀ entry ∈ entries, entry.2.isEmpty = false)
    (unreserved : ∀ entry ∈ entries, entry.1.isPriority = false) :
    ofChildren entries = ofSorted (Sorted.ofList entries) none := by
  rw [ofChildren, List.filter_eq_self.mpr]
  intro entry member
  simp [present entry member, unreserved entry member]

/-- The children of a canonical node are made into a branch as they are. -/
theorem ofChildren_children
    {node : Node} (canonical : node.Canonical) :
    ofChildren node.children = ofSorted node.children none := by
  rw [ofChildren_of_present
      (fun _ member => canonical.nonempty_of_mem_children member)
      (fun _ member => canonical.unreserved_of_mem_children member),
    Sorted.ofList_of_ascending canonical.children_ascending]

@[simp]
theorem child_ofChildren
    {node : Node} (canonical : node.Canonical)
    {key : Key} (unreserved : key.isPriority = false) :
    (ofChildren node.children).child key = node.child key := by
  rw [ofChildren_children canonical, child_of_not_priority unreserved,
    child_of_not_priority unreserved, children_ofSorted]

end Replica.Node
