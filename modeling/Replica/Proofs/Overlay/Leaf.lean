import Replica.Proofs.Overlay.Seen

/-!
# Writes over a leaf

A write below a child either leaves a leaf as it is or turns it into a branch, and no write below
a node makes a leaf of a branch. Writes that do not lie above one another cannot undo what one of
them did, so over a leaf they give a leaf or a branch with data.
-/

namespace Replica

namespace Path

/-- A location at or below a child, neither the location itself nor its priority. -/
def InChild : Path → Prop
  | [] => False
  | key :: _ => key.isPriority = false

/-- A location that begins with the priority key, and so stands for the priority. -/
def AtPriority : Path → Bool
  | [] => false
  | key :: _ => key.isPriority

theorem InChild.ne_nil
    {path : Path} (inChild : path.InChild) : path ≠ [] := by
  rintro rfl
  exact inChild

theorem InChild.atPriority
    {path : Path} (inChild : path.InChild) : path.AtPriority = false := by
  cases path with
  | nil => cases inChild
  | cons key rest => exact inChild

theorem inChild_of_not_atPriority
    {path : Path} (proper : path ≠ []) (other : path.AtPriority = false) :
    path.InChild := by
  cases path with
  | nil => exact absurd rfl proper
  | cons key rest => exact other

theorem Writable.inChild
    {path : Path} (writable : Writable path) (proper : path ≠ [])
    (notHere : path ≠ [.priority]) : InChild path := by
  cases path with
  | nil => exact absurd rfl proper
  | cons key rest =>
      change key.isPriority = false
      rw [Bool.eq_false_iff]
      intro reserved
      rw [writable.eq_nil_of_reserved reserved, eq_of_beq reserved] at notHere
      exact notHere rfl

theorem Unreserved.inChild
    {path : Path} (unreserved : Unreserved path) (proper : path ≠ []) :
    InChild path := by
  cases path with
  | nil => exact absurd rfl proper
  | cons key rest => exact unreserved.head

end Path

namespace Node

/-! ## One write -/

@[simp]
private theorem isLeaf_setPriority
    (node : Node) (priority : Option Priority) :
    (node.setPriority priority).isLeaf = node.isLeaf := by
  rw [isLeaf_eq_isSome_value?, isLeaf_eq_isSome_value?,
    value?_setPriority]

/-- A write at the priority of a node does not change what kind of node it is. -/
theorem isLeaf_setDescendant_of_atPriority
    (node : Node) {path : Path} (atPriority : path.AtPriority = true)
    (replacement : Node) :
    (node.setDescendant path replacement).isLeaf = node.isLeaf := by
  cases path with
  | nil => cases atPriority
  | cons key rest =>
      have reserved : key.isPriority = true := atPriority
      rw [setDescendant_cons_of_priority reserved, isLeaf_setPriority]

/-- If a new child gives a leaf, it has changed nothing. -/
theorem setChild_eq_of_isLeaf
    {node newChild : Node}
    {key : Key} (unreserved : key.isPriority = false)
    (leaf : (node.setChild key newChild).isLeaf = true) :
    node.setChild key newChild = node := by
  rw [isLeaf_eq_isSome_value?, value?_setChild node newChild unreserved]
    at leaf
  cases noData : newChild.isEmpty with
  | false =>
      rw [noData] at leaf
      cases leaf
  | true =>
      rw [noData, if_pos rfl, ← isLeaf_eq_isSome_value?] at leaf
      exact setChild_leaf leaf noData unreserved

/-- If a write below a child gives a leaf, it has changed nothing. -/
theorem setDescendant_eq_of_isLeaf
    {node : Node} {path : Path} (inChild : path.InChild)
    {replacement : Node}
    (leaf : (node.setDescendant path replacement).isLeaf = true) :
    node.setDescendant path replacement = node := by
  cases path with
  | nil => cases inChild
  | cons key rest =>
      have unreserved : key.isPriority = false := inChild
      rw [setDescendant_cons_of_not_priority unreserved] at leaf ⊢
      exact setChild_eq_of_isLeaf unreserved leaf

/-- No write below a node makes a leaf of a branch. -/
theorem isLeaf_of_isLeaf_setDescendant
    {node : Node} {path : Path} (proper : path ≠ [])
    {replacement : Node}
    (leaf : (node.setDescendant path replacement).isLeaf = true) :
    node.isLeaf = true := by
  cases atPriority : path.AtPriority with
  | true =>
      rw [isLeaf_setDescendant_of_atPriority node atPriority] at leaf
      exact leaf
  | false =>
      have inChild := Path.inChild_of_not_atPriority proper atPriority
      rw [setDescendant_eq_of_isLeaf inChild leaf] at leaf
      exact leaf

theorem value?_setDescendant_of_branch
    {node : Node} {path : Path} (proper : path ≠ [])
    (branch : node.isLeaf = false) (replacement : Node) :
    (node.setDescendant path replacement).value? = node.value? := by
  have stillBranch : (node.setDescendant path replacement).isLeaf = false := by
    rw [Bool.eq_false_iff]
    intro leaf
    rw [isLeaf_of_isLeaf_setDescendant proper leaf] at branch
    cases branch
  rw [value?_of_branch branch, value?_of_branch stillBranch]

/-- Over no data nothing can be deleted, and no priority set. -/
@[simp]
theorem setDescendant_empty
    {path : Path} {replacement : Node}
    (void : path.Unreserved → replacement = empty) :
    empty.setDescendant path replacement = empty := by
  induction path with
  | nil => exact void fun _ member => absurd member List.not_mem_nil
  | cons key rest inductionHypothesis =>
      by_cases reserved : key.isPriority = true
      · rw [setDescendant_cons_of_priority reserved]
        exact Canonical.empty.setPriority _ |>.eq_empty (by
          rw [isEmpty_setPriority]
          rfl)
      · have unreserved : key.isPriority = false := by
          simpa using reserved
        have below : empty.setDescendant rest replacement = empty := by
          refine inductionHypothesis fun restUnreserved => void ?_
          intro other member
          rcases List.mem_cons.mp member with rfl | later
          · exact unreserved
          · exact restUnreserved other later
        rw [setDescendant_cons_of_not_priority unreserved, child_empty,
          below]
        exact setChild_of_same unreserved (by
          rw [child_empty]
          exact same_refl empty)

/-- Over a leaf nothing below can be deleted, and no priority below set. -/
theorem setDescendant_leaf
    {node : Node} (leaf : node.isLeaf = true)
    {path : Path} (inChild : path.InChild) {replacement : Node}
    (void : path.Unreserved → replacement = empty) :
    node.setDescendant path replacement = node := by
  cases path with
  | nil => cases inChild
  | cons key rest =>
      have unreserved : key.isPriority = false := inChild
      have below : empty.setDescendant rest replacement = empty := by
        refine setDescendant_empty fun restUnreserved => void ?_
        intro other member
        rcases List.mem_cons.mp member with rfl | later
        · exact unreserved
        · exact restUnreserved other later
      rw [setDescendant_cons_of_not_priority unreserved,
        child_leaf leaf unreserved, below]
      exact setChild_leaf leaf rfl unreserved

/-! ## Many writes -/

/-- No writes below a node make a leaf of a branch. -/
theorem isLeaf_of_isLeaf_lay
    {node : Node} {writes : List (Path × Node)}
    (proper : ∀ write ∈ writes, write.1 ≠ [])
    (leaf : (node.lay writes).isLeaf = true) : node.isLeaf = true := by
  induction writes generalizing node with
  | nil => exact leaf
  | cons write rest inductionHypothesis =>
      obtain ⟨first, others⟩ := List.forall_mem_cons.mp proper
      exact isLeaf_of_isLeaf_setDescendant first
        (inductionHypothesis others leaf)

/-- If writes below children give a leaf, they have changed nothing. -/
theorem lay_eq_of_isLeaf
    {node : Node} {writes : List (Path × Node)}
    (inChild : ∀ write ∈ writes, write.1.InChild)
    (leaf : (node.lay writes).isLeaf = true) :
    node.lay writes = node := by
  induction writes generalizing node with
  | nil => rfl
  | cons write rest inductionHypothesis =>
      obtain ⟨first, others⟩ := List.forall_mem_cons.mp inChild
      have unchanged := inductionHypothesis others leaf
      rw [lay_cons] at leaf ⊢
      rw [unchanged] at leaf ⊢
      exact setDescendant_eq_of_isLeaf first leaf

/-- If writes below a node give a leaf, they have changed nothing but its priority. -/
theorem lay_eq_lay_atPriority
    {node : Node} {writes : List (Path × Node)}
    (proper : ∀ write ∈ writes, write.1 ≠ [])
    (leaf : (node.lay writes).isLeaf = true) :
    node.lay writes =
      node.lay (writes.filter fun write => write.1.AtPriority) := by
  induction writes generalizing node with
  | nil => rfl
  | cons write rest inductionHypothesis =>
      obtain ⟨first, others⟩ := List.forall_mem_cons.mp proper
      rw [lay_cons] at leaf ⊢
      have further := inductionHypothesis others leaf
      rw [List.filter_cons]
      cases atPriority : write.1.AtPriority with
      | true => exact further
      | false =>
          have inChild := Path.inChild_of_not_atPriority first atPriority
          have stillLeaf := isLeaf_of_isLeaf_lay others leaf
          rw [setDescendant_eq_of_isLeaf inChild stillLeaf] at further ⊢
          exact further

/-- Writes of one node at the location itself give this node. -/
private theorem lay_root
    {node replacement : Node} {writes : List (Path × Node)}
    (some' : writes ≠ [])
    (all : ∀ write ∈ writes, write = ([], replacement)) :
    node.lay writes = replacement := by
  induction writes generalizing node with
  | nil => exact absurd rfl some'
  | cons write rest inductionHypothesis =>
      obtain ⟨rfl, others⟩ := List.forall_mem_cons.mp all
      cases rest with
      | nil => rfl
      | cons next further =>
          exact inductionHypothesis (List.cons_ne_nil _ _) others

/-- What is written at a location stands there when no written location is above another one. -/
theorem descendant_lay_of_apart
    {node : Node} (canonical : node.Canonical)
    {writes : List (Path × Node)}
    (writesCanonical : ∀ write ∈ writes, write.2.Canonical)
    (apart : ∀ upper ∈ writes, ∀ lower ∈ writes,
      Path.contains upper.1 lower.1 = true → upper = lower)
    {path : Path} (unreserved : path.Unreserved) {data : Node}
    (member : (path, data) ∈ writes) :
    (node.lay writes).descendant path ≈ data := by
  have here : Overlay.seenFrom path (path, data) = some ([], data) := by
    have seen := Overlay.seenFrom_below path [] data
    rw [List.append_nil] at seen
    exact seen
  have alone : ∀ seen ∈ writes.filterMap (Overlay.seenFrom path),
      seen = ([], data) := by
    intro seen seenMember
    obtain ⟨⟨other, otherData⟩, otherMember, isSeen⟩ :=
      List.mem_filterMap.mp seenMember
    have same : (path, data) = (other, otherData) := by
      rcases Path.related_cases other path with
        ⟨below, rfl⟩ | ⟨below, rfl⟩ | ⟨notAbove, notBelow⟩
      · exact apart _ member _ otherMember
          (Path.contains_append path below)
      · exact (apart _ otherMember _ member
          (Path.contains_append other below)).symm
      · rw [Overlay.seenFrom_beside otherData notAbove notBelow]
          at isSeen
        cases isSeen
    rw [← same, here] at isSeen
    exact (Option.some.inj isSeen).symm
  have seesData :
      writes.filterMap (Overlay.seenFrom path) ≠ [] :=
    List.ne_nil_of_mem
      (List.mem_filterMap.mpr ⟨_, member, here⟩)
  have shown := descendant_lay canonical unreserved writesCanonical
  rw [lay_root seesData alone] at shown
  exact shown

/-- A leaf remains one when no data is written below it. -/
theorem isLeaf_lay_of_void
    {node : Node} (leaf : node.isLeaf = true)
    {writes : List (Path × Node)}
    (proper : ∀ write ∈ writes, write.1 ≠ [])
    (void : ∀ write ∈ writes, write.1.Unreserved → write.2 = empty) :
    (node.lay writes).isLeaf = true := by
  induction writes generalizing node with
  | nil => exact leaf
  | cons write rest inductionHypothesis =>
      obtain ⟨first, others⟩ := List.forall_mem_cons.mp proper
      obtain ⟨firstVoid, othersVoid⟩ := List.forall_mem_cons.mp void
      rw [lay_cons]
      refine inductionHypothesis ?_ others othersVoid
      cases atPriority : write.1.AtPriority with
      | true =>
          rw [isLeaf_setDescendant_of_atPriority node atPriority]
          exact leaf
      | false =>
          rw [setDescendant_leaf leaf
            (Path.inChild_of_not_atPriority first atPriority) firstVoid]
          exact leaf

/-- Over a leaf, writes that do not lie above one another give a leaf or a branch with data. -/
theorem leaf_or_child_of_lay
    {node : Node} (canonical : node.Canonical)
    (leaf : node.isLeaf = true) {writes : List (Path × Node)}
    (writesCanonical : ∀ write ∈ writes, write.2.Canonical)
    (proper : ∀ write ∈ writes, write.1 ≠ [])
    (apart : ∀ upper ∈ writes, ∀ lower ∈ writes,
      Path.contains upper.1 lower.1 = true → upper = lower) :
    (node.lay writes).isLeaf = true ∨
      ∃ key : Key, key.isPriority = false ∧
        ((node.lay writes).child key).isEmpty = false := by
  by_cases putsData : ∃ write ∈ writes, write.1.Unreserved ∧
      write.2.isEmpty = false
  · obtain ⟨⟨path, data⟩, member, unreserved, present⟩ := putsData
    refine Or.inr ?_
    have nonempty : ((node.lay writes).descendant path).isEmpty = false := by
      rw [isEmpty_congr (descendant_lay_of_apart canonical writesCanonical
        apart unreserved member)]
      exact present
    cases path with
    | nil => exact absurd rfl (proper _ member)
    | cons key rest =>
        refine ⟨key, unreserved.head, ?_⟩
        rw [Bool.eq_false_iff]
        intro noData
        have childless := (canonical.lay writesCanonical).child key
          |>.eq_empty noData
        rw [descendant, childless, descendant_empty] at nonempty
        cases nonempty
  · refine Or.inl (isLeaf_lay_of_void leaf proper ?_)
    intro write member unreserved
    refine (writesCanonical write member).eq_empty ?_
    by_contra present
    exact putsData ⟨write, member, unreserved, by simpa using present⟩

end Node

end Replica
