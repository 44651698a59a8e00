import Replica.Proofs.Filter.Settled
import Replica.Proofs.View.Maintained

/-!
# Snapshots that a selection confines

A selection with bounds or a limit shows a branch without a priority. All children lie in its
range, and there are no more of them than its limit. Its filter maintains this: a child is put into
a window only where there is room, and into a full one only where another child leaves, whether the
child comes from the server or has slid in.
-/

namespace Replica

private theorem Node.isLeaf_setChild_of_branch
    {node : Node} {key : Key} (unreserved : key.isPriority = false)
    (branch : node.isLeaf = false) (child : Node) :
    (node.setChild key child).isLeaf = false := by
  rw [Node.isLeaf_eq_isSome_value?] at branch ⊢
  rw [Node.value?_setChild node child unreserved]
  split
  · exact branch
  · rfl

/-- A full window takes a child in only for one that leaves. -/
theorem Window.Turned.length_le
    {window : Window} {snap child known : Node} {key : Key}
    (canonical : snap.Canonical) (childCanonical : child.Canonical)
    (knownCanonical : known.Canonical)
    (unreserved : key.isPriority = false)
    {edit : Edit} (turned : Turned window snap key child known edit) :
    edit.node.children.length ≤ snap.children.length := by
  cases turned with
  | unchanged _ _ => exact Nat.le_refl _
  | kept held _ _ _ _ =>
      exact Node.length_children_setChild_le_of_held child unreserved held
  | left held _ _ _ _ =>
      exact Node.length_children_setChild_le_of_held .empty unreserved held
  | replaced held _ _ isNext _ _ =>
      obtain ⟨candidate, _, outside, _⟩ := of_next? isNext
      exact (Node.length_children_exchange canonical
        (knownCanonical.nonempty_of_mem_children candidate)
        (knownCanonical.unreserved_of_mem_children candidate) unreserved
        outside held).le
  | entered outside present held _ _ =>
      exact (Node.length_children_exchange_after canonical childCanonical
        present unreserved (canonical.unreserved_of_mem_children held) outside
        (Node.hasChild_of_mem_children canonical held)).le

namespace Filter

/-! ## How many children a window holds -/

private theorem length_select_le
    {node : Node} (canonical : node.Canonical) (window : Window) :
    ((limited window).select node).children.length ≤
      window.limit.count := by
  rw [length_children_select canonical]
  exact List.length_take_le _ _

private theorem length_setChild_le
    {window : Window} {snap child known : Node} (canonical : snap.Canonical)
    (childCanonical : child.Canonical) (knownCanonical : known.Canonical)
    {key : Key} (unreserved : key.isPriority = false)
    (few : snap.children.length ≤ window.limit.count) :
    ((limited window).setChild snap key child known).node.children.length ≤
      window.limit.count := by
  have clipped := (limited window).canonical_clip childCanonical key
  rw [setChild_limited]
  split
  · exact few
  · split
    · rename_i room
      rw [Edit.node_ofChild_eq_setChild snap _ unreserved]
      exact (Node.length_children_setChild_le snap _ unreserved).trans room
    · exact ((window.turned_shift snap unreserved _ known).length_le
        canonical clipped knownCanonical unreserved).trans few

end Filter

namespace Selection

/-- The snapshot is a branch without a priority, all its children lie in the range of the
selection, and there are no more of them than the limit of the selection. -/
structure Confines (selection : Selection) (node : Node) : Prop where
  branch : node.isLeaf = false
  bare : node.priority? = none
  inRange : ∀ entry ∈ node.children, selection.range.contains entry = true
  few : ∀ limit, selection.limit? = some limit →
    node.children.length ≤ limit.count

private theorem drops_of_restricted
    {selection : Selection} (restricted : selection.keepsAll = false) :
    selection.filter.drops = true := by
  rw [drops_filter, restricted]
  rfl

/-- The filter of a selection lets the children in its range through. -/
theorem admits_filter
    {selection : Selection} (restricted : selection.keepsAll = false)
    (sibling : Key × Node) :
    selection.filter.admits sibling = selection.range.contains sibling := by
  cases limited : selection.limit? with
  | some limit =>
      rw [filter_of_limit limited]
      rfl
  | none =>
      rw [filter_of_bounds limited restricted]
      rfl

theorem Confines.holds
    {selection : Selection} (restricted : selection.keepsAll = false)
    {node : Node} (confines : selection.Confines node) :
    selection.filter.Holds node := by
  intro entry member
  rw [admits_filter restricted]
  exact confines.inRange entry member

theorem Confines.few_of_limited
    {selection : Selection} (restricted : selection.keepsAll = false)
    {node : Node} (confines : selection.Confines node)
    {window : Window} (isWindow : selection.filter = .limited window) :
    node.children.length ≤ window.limit.count := by
  cases limited : selection.limit? with
  | some limit =>
      rw [filter_of_limit limited] at isWindow
      cases isWindow
      exact confines.few limit limited
  | none =>
      rw [filter_of_bounds limited restricted] at isWindow
      cases isWindow

theorem confines_select
    {selection : Selection} (restricted : selection.keepsAll = false)
    {node : Node} (canonical : node.Canonical) :
    selection.Confines (selection.filter.select node) where
  branch := Filter.isLeaf_select (drops_of_restricted restricted) node
  bare := Filter.priority?_select (drops_of_restricted restricted) node
  inRange entry member := by
    rw [← admits_filter restricted]
    exact Filter.holds_select canonical selection.filter entry member
  few limit limited := by
    rw [filter_of_limit limited]
    exact Filter.length_select_le canonical _

theorem Confines.setChild
    {selection : Selection} (restricted : selection.keepsAll = false)
    {snap : Node} (confines : selection.Confines snap)
    {child known : Node} {key : Key} (canonical : snap.Canonical)
    (childCanonical : child.Canonical) (knownCanonical : known.Canonical)
    (unreserved : key.isPriority = false) :
    selection.Confines
      (selection.filter.setChild snap key child known).node where
  branch :=
    Filter.setChild_keeps (·.isLeaf = false)
      (fun _ dataKey => Node.isLeaf_setChild_of_branch dataKey) canonical
      childCanonical knownCanonical confines.branch unreserved _
  bare :=
    Filter.priority?_setChild_of_none canonical childCanonical
      knownCanonical confines.bare unreserved selection.filter
  inRange entry member := by
    rw [← admits_filter restricted]
    exact Filter.holds_setChild (confines.holds restricted) knownCanonical
      canonical unreserved entry member
  few limit limited := by
    rw [filter_of_limit limited]
    exact Filter.length_setChild_le canonical childCanonical knownCanonical
      unreserved (confines.few limit limited)

/-- The filter of a selection with bounds or a limit maintains that the selection confines the
snapshot. -/
theorem maintains_confines (selection : Selection) :
    selection.filter.Maintains fun node =>
      selection.keepsAll = false → selection.Confines node where
  select canonical restricted := confines_select restricted canonical
  setChild canonical childCanonical knownCanonical unreserved confines
      restricted :=
    (confines restricted).setChild restricted canonical childCanonical
      knownCanonical unreserved
  setPriority _ confines priority restricted := by
    rw [Filter.setPriority_of_drops (drops_of_restricted restricted)]
    exact confines restricted

end Selection

end Replica
