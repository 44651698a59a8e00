import Replica.Proofs.Node.Canonical

/-!
# Replacing children and descendants

A replaced child is found again, other children stay as they were, and the node itself keeps its
priority as long as data is left. Replacing a descendant looks from any other location like
replacing the part of it that is seen from there.
-/

namespace Replica

/-! ## Kinds of paths -/

namespace Path

/-- The priority key does not occur in the path. -/
def Unreserved (path : Path) : Prop :=
  ∀ key ∈ path, key.isPriority = false

/-- The priority key occurs at most at the end of the path. -/
def Writable (path : Path) : Prop :=
  Unreserved path.dropLast

theorem Unreserved.head
    {key : Key} {rest : Path} (unreserved : Unreserved (key :: rest)) :
    key.isPriority = false :=
  unreserved key List.mem_cons_self

theorem Unreserved.tail
    {key : Key} {rest : Path} (unreserved : Unreserved (key :: rest)) :
    Unreserved rest :=
  fun other member => unreserved other (List.mem_cons_of_mem key member)

@[simp]
theorem unreserved_append_iff {upper lower : Path} :
    Unreserved (upper ++ lower) ↔ Unreserved upper ∧ Unreserved lower := by
  simp only [Unreserved, List.mem_append, or_imp, forall_and]

theorem unreserved_singleton
    {key : Key} (unreserved : key.isPriority = false) :
    Unreserved [key] := by
  intro other member
  rw [List.mem_singleton.mp member]
  exact unreserved

theorem Writable.lower
    {upper lower : Path} (writable : Writable (upper ++ lower)) :
    Writable lower := by
  intro key member
  refine writable key ?_
  cases lower with
  | nil => cases member
  | cons first rest =>
      rw [List.dropLast_append_of_ne_nil (List.cons_ne_nil _ _)]
      exact List.mem_append_right upper member

/-- Nothing can be written below the priority key. -/
theorem Writable.upper
    {upper lower : Path} (writable : Writable (upper ++ lower))
    (proper : lower ≠ []) :
    Unreserved upper := by
  intro key member
  refine writable key ?_
  rw [List.dropLast_append_of_ne_nil proper]
  exact List.mem_append_left _ member

/-- Nothing follows the priority key. -/
theorem Writable.eq_nil_of_reserved
    {key : Key} {rest : Path} (writable : Writable (key :: rest))
    (reserved : key.isPriority = true) : rest = [] := by
  by_contra further
  have unreserved :=
    @Writable.upper [key] rest writable further key
      (List.mem_singleton_self key)
  rw [reserved] at unreserved
  cases unreserved

end Path

namespace Node

/-! ## The priority of a node -/

@[simp]
theorem children_setPriority
    (node : Node) (priority : Option Priority) :
    (node.setPriority priority).children = node.children := by
  unfold setPriority
  split
  · rfl
  · cases node with
    | leaf _ _ => rfl
    | branch children _ => cases children <;> rfl

@[simp]
theorem value?_setPriority
    (node : Node) (priority : Option Priority) :
    (node.setPriority priority).value? = node.value? := by
  unfold setPriority
  split
  · rfl
  · cases node with
    | leaf _ _ => rfl
    | branch children _ => cases children <;> rfl

@[simp]
theorem child_setPriority_of_not_priority
    (node : Node) (priority : Option Priority)
    {key : Key} (unreserved : key.isPriority = false) :
    (node.setPriority priority).child key = node.child key := by
  rw [child_of_not_priority unreserved, child_of_not_priority unreserved,
    children_setPriority]

@[simp]
theorem isEmpty_setPriority
    (node : Node) (priority : Option Priority) :
    (node.setPriority priority).isEmpty = node.isEmpty := by
  unfold setPriority
  split
  · rfl
  · cases node with
    | leaf _ _ => rfl
    | branch children _ => cases children <;> rfl

/-- A new priority takes effect unless there is no data. -/
theorem priority?_setPriority
    {node : Node} (canonical : node.Canonical)
    (priority : Option Priority) :
    Priority.orderOptional (node.setPriority priority).priority?
      (if node.isEmpty then none else priority) = .eq := by
  by_cases noData : node.isEmpty = true
  · rw [if_pos noData]
    have stillNoData : (node.setPriority priority).isEmpty = true := by
      rw [isEmpty_setPriority]
      exact noData
    rw [(canonical.setPriority priority).eq_empty stillNoData]
    rfl
  · rw [if_neg noData]
    unfold setPriority
    split
    · rename_i equal
      exact beq_iff_eq.mp equal
    · cases node with
      | leaf _ _ => exact Priority.orderOptional_self priority
      | branch children _ =>
          cases children with
          | nil => exact absurd rfl noData
          | cons _ _ => exact Priority.orderOptional_self priority

/-- Setting a priority again changes nothing. -/
@[simp]
theorem setPriority_setPriority
    {node : Node} (canonical : node.Canonical)
    (priority : Option Priority) :
    (node.setPriority priority).setPriority priority =
      node.setPriority priority := by
  have set := priority?_setPriority canonical priority
  cases noData : node.isEmpty with
  | true =>
      have nothing (other : Option Priority) : empty.setPriority other = empty :=
        ite_self _
      rw [canonical.eq_empty noData, nothing, nothing]
  | false =>
      rw [noData, if_neg Bool.false_ne_true] at set
      exact if_pos (beq_iff_eq.mpr set)

theorem setPriority_congr
    {left right : Node} (equal : left ≈ right)
    (leftCanonical : left.Canonical) (rightCanonical : right.Canonical)
    {priority other : Option Priority}
    (samePriority : Priority.orderOptional priority other = .eq) :
    left.setPriority priority ≈ right.setPriority other := by
  refine equiv_of_children (leftCanonical.setPriority priority)
    (rightCanonical.setPriority other) ?_ ?_ ?_
  · rw [value?_setPriority, value?_setPriority]
    exact value?_congr equal
  · have leftPriority := priority?_setPriority leftCanonical priority
    have rightPriority := priority?_setPriority rightCanonical other
    rw [← isEmpty_congr equal] at rightPriority
    refine Priority.orderOptional_trans leftPriority
      (Priority.orderOptional_trans ?_
        (Priority.orderOptional_symm rightPriority))
    split
    · rfl
    · exact samePriority
  · intro key unreserved
    rw [child_setPriority_of_not_priority left priority unreserved,
      child_setPriority_of_not_priority right other unreserved]
    exact child_congr equal key

/-! ## A child of a node -/

@[simp]
theorem children_ofSorted
    (children : List (Key × Node)) (priority : Option Priority) :
    (ofSorted children priority).children = children := by
  unfold ofSorted
  split
  · rename_i childless
    exact (List.isEmpty_iff.mp childless).symm
  · rfl

@[simp]
theorem isEmpty_ofSorted
    (children : List (Key × Node)) (priority : Option Priority) :
    (ofSorted children priority).isEmpty = children.isEmpty := by
  unfold ofSorted
  split
  · rename_i childless
    rw [childless]
    rfl
  · rfl

@[simp]
theorem value?_ofSorted
    (children : List (Key × Node)) (priority : Option Priority) :
    (ofSorted children priority).value? = none := by
  unfold ofSorted
  split
  · rfl
  · rfl

@[simp]
theorem priority?_ofSorted
    (children : List (Key × Node)) (priority : Option Priority) :
    (ofSorted children priority).priority? =
      if children.isEmpty then none else priority := by
  unfold ofSorted
  split
  · rfl
  · rfl

/-- Under a key for data, a new child is stored, or removed if it is empty. One that is the same as
the child in place changes nothing. -/
theorem children_setChild
    (node newChild : Node)
    {key : Key} (unreserved : key.isPriority = false) :
    (node.setChild key newChild).children =
      if (node.child key).same newChild then node.children
      else if newChild.isEmpty then Sorted.erase key node.children
      else Sorted.insert key newChild node.children := by
  have isNew (present : ¬ newChild.isEmpty = true) :
      ¬ empty.same newChild = true :=
    fun same => present (isEmpty_congr (equiv_iff.mpr same)).symm
  rw [child_of_not_priority unreserved]
  unfold setChild
  rw [if_neg (by simp [unreserved])]
  cases node with
  | leaf value priority =>
      change (if _ then _ else _ : Node).children =
        if empty.same newChild then [] else _
      split
      · exact (ite_self _).symm
      · rename_i present
        rw [if_neg (isNew present)]
        rfl
  | branch children priority =>
      change _ = if (((Sorted.find? key children).getD empty).same
        newChild) then children else _
      dsimp only
      split
      · rename_i existing stored
        rw [stored, Option.getD_some]
        split
        · rfl
        · split
          · exact children_ofSorted _ priority
          · exact children_ofSorted _ priority
      · rename_i absent
        rw [absent, Option.getD_none]
        split
        · change children = if _ then children
            else Sorted.erase key children
          rw [Sorted.erase_of_absent absent, ite_self]
        · rename_i present
          rw [if_neg (isNew present)]
          exact children_ofSorted _ priority

@[simp]
theorem child_setChild_self
    {node newChild : Node} (canonical : node.Canonical)
    (childCanonical : newChild.Canonical)
    {key : Key} (unreserved : key.isPriority = false) :
    (node.setChild key newChild).child key ≈ newChild := by
  rw [child_of_not_priority unreserved,
    children_setChild node newChild unreserved]
  split
  · rename_i same
    rw [child_of_not_priority unreserved] at same
    exact same
  · split
    · rename_i noData
      rw [Sorted.find?_erase_self canonical.children_ascending,
        childCanonical.eq_empty noData]
      exact Setoid.refl _
    · rw [Sorted.find?_insert_self]
      exact Setoid.refl _

/-- The children under other keys stay as they were, the priority included in the change. -/
@[simp]
theorem child_setChild_of_ne
    {node : Node} (canonical : node.Canonical) (newChild : Node)
    {key other : Key} (unreserved : other.isPriority = false)
    (different : other ≠ key) :
    (node.setChild key newChild).child other = node.child other := by
  cases reserved : key.isPriority with
  | true =>
      unfold setChild
      rw [if_pos reserved]
      exact child_setPriority_of_not_priority node _ unreserved
  | false =>
      rw [child_of_not_priority unreserved,
        child_of_not_priority unreserved,
        children_setChild node newChild reserved]
      split
      · rfl
      · split
        · rw [Sorted.find?_erase_of_ne different
            canonical.children_ascending]
        · rw [Sorted.find?_insert_of_ne newChild different]

/-- A child stays replaced while another one is replaced after it. -/
theorem child_setChild_setChild
    {node newChild : Node} (canonical : node.Canonical)
    (newCanonical : newChild.Canonical) (further : Node) {key other : Key}
    (unreserved : key.isPriority = false) (different : key ≠ other) :
    ((node.setChild key newChild).setChild other further).child key ≈
      newChild := by
  rw [child_setChild_of_ne (canonical.setChild newCanonical key) further
    unreserved different]
  exact child_setChild_self canonical newCanonical unreserved

/-- A child of a node after a child was replaced was there before or is the new one. -/
theorem mem_children_setChild
    {node newChild : Node} {key : Key} (unreserved : key.isPriority = false)
    {entry : Key × Node}
    (member : entry ∈ (node.setChild key newChild).children) :
    entry ∈ node.children ∨
      newChild.isEmpty = false ∧ entry = (key, newChild) := by
  rw [children_setChild node newChild unreserved] at member
  split at member
  · exact .inl member
  · split at member
    · exact .inl (Sorted.mem_of_mem_erase member)
    · rename_i present
      rcases Sorted.mem_of_mem_insert member with isNew | old
      · exact .inr ⟨by simpa using present, isNew⟩
      · exact .inl old

/-- A child under a new key is one more. -/
theorem length_children_setChild_of_absent
    {node newChild : Node} {key : Key} (unreserved : key.isPriority = false)
    (absent : node.hasChild key = false)
    (present : newChild.isEmpty = false) :
    (node.setChild key newChild).children.length =
      node.children.length + 1 := by
  have isNew : ¬ (node.child key).same newChild = true := by
    rw [child_of_not_hasChild unreserved absent]
    intro same
    have noData : newChild.isEmpty = true :=
      (isEmpty_congr (equiv_iff.mpr same)).symm
    rw [present] at noData
    cases noData
  rw [hasChild_of_not_priority unreserved, Option.isSome_eq_false_iff,
    Option.isNone_iff_eq_none] at absent
  rw [children_setChild node newChild unreserved, if_neg isNew,
    if_neg (by simp [present]), Sorted.length_insert_of_absent _ absent]

/-- A child that is removed is one less. -/
theorem length_children_setChild_of_held
    {node : Node} (canonical : node.Canonical)
    {key : Key} (unreserved : key.isPriority = false)
    (held : node.hasChild key = true) :
    (node.setChild key empty).children.length + 1 =
      node.children.length := by
  have present : ¬ (node.child key).same empty = true := by
    rw [hasChild_eq_not_isEmpty canonical unreserved] at held
    intro same
    rw [isEmpty_congr (equiv_iff.mpr same)] at held
    cases held
  rw [hasChild_of_not_priority unreserved] at held
  have noData : empty.isEmpty = true := rfl
  rw [children_setChild node empty unreserved, if_neg present,
    if_pos noData, Sorted.length_erase_of_present held]

/-- Replacing a child that is there adds none. -/
theorem length_children_setChild_le_of_held
    {node : Node} (newChild : Node)
    {key : Key} (unreserved : key.isPriority = false)
    (held : node.hasChild key = true) :
    (node.setChild key newChild).children.length ≤
      node.children.length := by
  rw [hasChild_of_not_priority unreserved] at held
  rw [children_setChild node newChild unreserved]
  split
  · exact Nat.le_refl _
  · split
    · have fewer := Sorted.length_erase_of_present held
      omega
    · exact (Sorted.length_insert_of_present newChild held).le

/-- Replacing a child adds at most one. -/
theorem length_children_setChild_le
    (node newChild : Node)
    {key : Key} (unreserved : key.isPriority = false) :
    (node.setChild key newChild).children.length ≤
      node.children.length + 1 := by
  cases held : node.hasChild key with
  | true =>
      exact (length_children_setChild_le_of_held newChild unreserved
        held).trans (Nat.le_succ _)
  | false =>
      cases present : newChild.isEmpty with
      | false =>
          exact (length_children_setChild_of_absent unreserved held
            present).le
      | true =>
          rw [hasChild_of_not_priority unreserved,
            Option.isSome_eq_false_iff, Option.isNone_iff_eq_none] at held
          rw [children_setChild node newChild unreserved, if_pos present,
            Sorted.erase_of_absent held, ite_self]
          exact Nat.le_succ _

theorem length_children_setChild_of_present
    {node newChild : Node} {key : Key} (unreserved : key.isPriority = false)
    (held : node.hasChild key = true)
    (present : newChild.isEmpty = false) :
    (node.setChild key newChild).children.length =
      node.children.length := by
  rw [hasChild_of_not_priority unreserved] at held
  rw [children_setChild node newChild unreserved, present,
    if_neg Bool.false_ne_true]
  split
  · rfl
  · exact Sorted.length_insert_of_present newChild held

section

variable {node newChild : Node} (canonical : node.Canonical)
  (newCanonical : newChild.Canonical) (present : newChild.isEmpty = false)
  {key gone : Key} (unreserved : key.isPriority = false)
  (goneUnreserved : gone.isPriority = false)
  (absent : node.hasChild key = false) (held : node.hasChild gone = true)

include canonical present unreserved goneUnreserved absent held

/-- A child that takes the place of another one leaves their number as it was. -/
theorem length_children_exchange :
    ((node.setChild gone empty).setChild key newChild).children.length =
      node.children.length := by
  have different : key ≠ gone := by
    rintro rfl
    rw [held] at absent
    cases absent
  have stillAbsent : (node.setChild gone empty).hasChild key = false := by
    rw [hasChild_eq_not_isEmpty (canonical.setChild Canonical.empty gone)
      unreserved, child_setChild_of_ne canonical empty unreserved different,
      ← hasChild_eq_not_isEmpty canonical unreserved]
    exact absent
  rw [length_children_setChild_of_absent unreserved stillAbsent present,
    length_children_setChild_of_held canonical goneUnreserved held]

include newCanonical

theorem length_children_exchange_after :
    ((node.setChild key newChild).setChild gone empty).children.length =
      node.children.length := by
  have different : gone ≠ key := by
    rintro rfl
    rw [held] at absent
    cases absent
  have grown := canonical.setChild newCanonical key
  have stillHeld : (node.setChild key newChild).hasChild gone = true := by
    rw [hasChild_eq_not_isEmpty grown goneUnreserved,
      child_setChild_of_ne canonical newChild goneUnreserved different,
      ← hasChild_eq_not_isEmpty canonical goneUnreserved]
    exact held
  have removed :=
    length_children_setChild_of_held grown goneUnreserved stillHeld
  rw [length_children_setChild_of_absent unreserved absent present]
    at removed
  exact Nat.succ.inj removed

end

private theorem setChild_branch
    (children : List (Key × Node)) (priority : Option Priority)
    (newChild : Node) {key : Key} (unreserved : key.isPriority = false) :
    (branch children priority).setChild key newChild =
        branch children priority ∨
      ∃ others : List (Key × Node),
        (branch children priority).setChild key newChild =
          ofSorted others priority := by
  unfold setChild
  rw [if_neg (by simp [unreserved])]
  dsimp only
  split
  · split
    · exact Or.inl rfl
    · split
      · exact Or.inr ⟨_, rfl⟩
      · exact Or.inr ⟨_, rfl⟩
  · split
    · exact Or.inl rfl
    · exact Or.inr ⟨_, rfl⟩

@[simp]
theorem value?_setChild
    (node newChild : Node)
    {key : Key} (unreserved : key.isPriority = false) :
    (node.setChild key newChild).value? =
      if newChild.isEmpty then node.value? else none := by
  cases node with
  | leaf value priority =>
      unfold setChild
      rw [if_neg (by simp [unreserved])]
      dsimp only
      split
      · rfl
      · rfl
  | branch children priority =>
      have noValue : (branch children priority).value? = none := rfl
      rw [noValue, ite_self]
      rcases setChild_branch children priority newChild unreserved with
        unchanged | ⟨others, sorted⟩
      · rw [unchanged]
        rfl
      · rw [sorted]
        exact value?_ofSorted _ _

/-- The priority stays as long as there is data. -/
theorem priority?_setChild
    {node : Node} (canonical : node.Canonical) (newChild : Node)
    {key : Key} (unreserved : key.isPriority = false) :
    (node.setChild key newChild).priority? =
      if (node.setChild key newChild).isEmpty then none
      else node.priority? := by
  cases node with
  | leaf value priority =>
      unfold setChild
      rw [if_neg (by simp [unreserved])]
      dsimp only
      split
      · rfl
      · rfl
  | branch children priority =>
      rcases setChild_branch children priority newChild unreserved with
        unchanged | ⟨others, sorted⟩
      · rw [unchanged]
        split
        · rename_i noData
          rw [canonical.eq_empty noData]
          rfl
        · rfl
      · rw [sorted, priority?_ofSorted, isEmpty_ofSorted]
        rfl

theorem setChild_leaf
    {node newChild : Node} (leaf : node.isLeaf = true)
    (noData : newChild.isEmpty = true)
    {key : Key} (unreserved : key.isPriority = false) :
    node.setChild key newChild = node := by
  cases node with
  | leaf value priority =>
      unfold setChild
      rw [if_neg (by simp [unreserved])]
      exact if_pos noData
  | branch children priority => cases leaf

/-- A child that is the same as the one in place changes nothing. -/
theorem setChild_of_same
    {node newChild : Node} {key : Key}
    (unreserved : key.isPriority = false)
    (equal : (node.child key).same newChild = true) :
    node.setChild key newChild = node := by
  rw [child_of_not_priority unreserved] at equal
  have noData (absent : empty.same newChild = true) :
      newChild.isEmpty = true := by
    rw [← isEmpty_congr (equiv_iff.mpr absent)]
    rfl
  cases node with
  | leaf value priority =>
      exact setChild_leaf rfl (noData equal) unreserved
  | branch children priority =>
      unfold setChild
      rw [if_neg (by simp [unreserved])]
      dsimp only
      change ((Sorted.find? key children).getD empty).same newChild =
        true at equal
      cases stored : Sorted.find? key children with
      | some existing =>
          rw [stored] at equal
          exact if_pos equal
      | none =>
          rw [stored] at equal
          exact if_pos (noData equal)

theorem setChild_of_priority
    {key : Key} (reserved : key.isPriority = true)
    (node newChild : Node) :
    node.setChild key newChild =
      node.setPriority (newChild.value?.bind Priority.ofScalar?) := by
  unfold setChild
  rw [if_pos reserved]

/-- Nodes that are the same can serve as the same priority. -/
theorem ofScalar?_value?_congr
    {left right : Node} (equal : left ≈ right) :
    Priority.orderOptional
      (left.value?.bind Priority.ofScalar?)
      (right.value?.bind Priority.ofScalar?) = .eq := by
  have sameValue := value?_congr equal
  generalize left.value? = value at *
  generalize right.value? = other at *
  cases sameValue with
  | none => rfl
  | some related => exact Priority.ofScalar?_congr related

theorem setChild_congr
    {left right leftChild rightChild : Node}
    (equal : left ≈ right) (equalChild : leftChild ≈ rightChild)
    (leftCanonical : left.Canonical) (rightCanonical : right.Canonical)
    (leftChildCanonical : leftChild.Canonical)
    (rightChildCanonical : rightChild.Canonical)
    (key : Key) :
    left.setChild key leftChild ≈ right.setChild key rightChild := by
  by_cases reserved : key.isPriority = true
  · rw [setChild_of_priority reserved, setChild_of_priority reserved]
    exact setPriority_congr equal leftCanonical rightCanonical
      (ofScalar?_value?_congr equalChild)
  · have unreserved : key.isPriority = false := by
      simpa using reserved
    have leftResult := leftCanonical.setChild leftChildCanonical key
    have rightResult := rightCanonical.setChild rightChildCanonical key
    have sameChildren :
        ∀ other : Key, other.isPriority = false →
          (left.setChild key leftChild).child other ≈
            (right.setChild key rightChild).child other := by
      intro other otherUnreserved
      by_cases here : other = key
      · subst here
        exact Setoid.trans
          (child_setChild_self leftCanonical leftChildCanonical unreserved)
          (Setoid.trans equalChild
            (Setoid.symm
              (child_setChild_self rightCanonical rightChildCanonical
                unreserved)))
      · rw [child_setChild_of_ne leftCanonical leftChild otherUnreserved
            here,
          child_setChild_of_ne rightCanonical rightChild otherUnreserved
            here]
        exact child_congr equal other
    have sameValue :
        Option.Rel (fun a b => compare a b = .eq)
          (left.setChild key leftChild).value?
          (right.setChild key rightChild).value? := by
      rw [value?_setChild left leftChild unreserved,
        value?_setChild right rightChild unreserved,
        isEmpty_congr equalChild]
      split
      · exact value?_congr equal
      · exact Option.Rel.none
    have sameEmptiness :
        (left.setChild key leftChild).isEmpty =
          (right.setChild key rightChild).isEmpty :=
      isEmpty_eq_of_children leftResult rightResult sameValue
        sameChildren
    refine equiv_of_children leftResult rightResult sameValue ?_
      sameChildren
    rw [priority?_setChild leftCanonical leftChild unreserved,
      priority?_setChild rightCanonical rightChild unreserved,
      sameEmptiness]
    split
    · rfl
    · exact priority?_congr equal

/-! ## A descendant of a node -/

/-- A priority is a leaf, and has no priority of its own. -/
@[simp]
theorem child_priorityNode (node : Node) (key : Key) :
    node.priorityNode.child key = empty := by
  unfold priorityNode
  split
  · cases reserved : key.isPriority with
    | true =>
        unfold child
        rw [if_pos reserved]
        rfl
    | false => exact child_leaf rfl reserved
  · exact child_empty key

theorem descendant_eq_empty_of_reserved
    {path : Path} (reserved : ¬ path.Unreserved) (node : Node)
    (key : Key) : node.descendant (path ++ [key]) = empty := by
  induction path generalizing node with
  | nil =>
      exact absurd (fun _ member => absurd member List.not_mem_nil)
        reserved
  | cons first rest inductionHypothesis =>
      rw [List.cons_append, descendant]
      cases isPriority : first.isPriority with
      | true =>
          unfold child
          rw [if_pos isPriority]
          cases rest with
          | nil => exact child_priorityNode node key
          | cons next others =>
              rw [List.cons_append, descendant, child_priorityNode,
                descendant_empty]
      | false =>
          refine inductionHypothesis (fun restUnreserved => reserved ?_) _
          intro other member
          rcases List.mem_cons.mp member with rfl | later
          · exact isPriority
          · exact restUnreserved other later

theorem setDescendant_cons_of_priority
    {key : Key} (reserved : key.isPriority = true)
    (node : Node) (rest : Path) (replacement : Node) :
    node.setDescendant (key :: rest) replacement =
      node.setPriority (replacement.value?.bind Priority.ofScalar?) := by
  rw [setDescendant, if_pos reserved, setChild_of_priority reserved]

theorem setDescendant_cons_of_not_priority
    {key : Key} (unreserved : key.isPriority = false)
    (node : Node) (rest : Path) (replacement : Node) :
    node.setDescendant (key :: rest) replacement =
      node.setChild key
        ((node.child key).setDescendant rest replacement) := by
  rw [setDescendant, if_neg (by simp [unreserved])]

theorem setDescendant_congr
    {left right leftNode rightNode : Node}
    (equal : left ≈ right) (equalNode : leftNode ≈ rightNode)
    (leftCanonical : left.Canonical) (rightCanonical : right.Canonical)
    (leftNodeCanonical : leftNode.Canonical)
    (rightNodeCanonical : rightNode.Canonical) (path : Path) :
    left.setDescendant path leftNode ≈
      right.setDescendant path rightNode := by
  induction path generalizing left right with
  | nil => exact equalNode
  | cons key rest inductionHypothesis =>
      rw [setDescendant, setDescendant]
      split
      · exact setChild_congr equal equalNode leftCanonical rightCanonical
          leftNodeCanonical rightNodeCanonical key
      · exact setChild_congr equal
          (inductionHypothesis (child_congr equal key)
            (leftCanonical.child key) (rightCanonical.child key))
          leftCanonical rightCanonical
          ((leftCanonical.child key).setDescendant leftNodeCanonical rest)
          ((rightCanonical.child key).setDescendant rightNodeCanonical
            rest) key

/-- Replacing a descendant again changes nothing. -/
@[simp]
theorem setDescendant_setDescendant
    {node replacement : Node} (canonical : node.Canonical)
    (replacementCanonical : replacement.Canonical) (path : Path) :
    (node.setDescendant path replacement).setDescendant path replacement =
      node.setDescendant path replacement := by
  induction path generalizing node with
  | nil => rfl
  | cons key rest inductionHypothesis =>
      cases reserved : key.isPriority with
      | true =>
          rw [setDescendant_cons_of_priority reserved,
            setDescendant_cons_of_priority reserved]
          exact setPriority_setPriority canonical _
      | false =>
          have childCanonical :=
            (canonical.child key).setDescendant replacementCanonical rest
          have stored :=
            child_setChild_self canonical childCanonical reserved
          have again := setDescendant_congr stored (Setoid.refl replacement)
            ((canonical.setChild childCanonical key).child key)
            childCanonical replacementCanonical replacementCanonical rest
          rw [inductionHypothesis (canonical.child key)] at again
          rw [setDescendant_cons_of_not_priority reserved,
            setDescendant_cons_of_not_priority reserved]
          exact setChild_of_same reserved
            (Setoid.trans stored (Setoid.symm again))

/-- Seen from above, a replaced descendant is the replaced part of the descendant there. -/
theorem descendant_setDescendant_below
    {node replacement : Node} (canonical : node.Canonical)
    (replacementCanonical : replacement.Canonical)
    {base : Path} (unreserved : base.Unreserved) (below : Path) :
    (node.setDescendant (base ++ below) replacement).descendant base ≈
      (node.descendant base).setDescendant below replacement := by
  induction base generalizing node with
  | nil => exact Setoid.refl _
  | cons key rest inductionHypothesis =>
      rw [List.cons_append,
        setDescendant_cons_of_not_priority unreserved.head]
      have stored :=
        child_setChild_self canonical
          ((canonical.child key).setDescendant replacementCanonical
            (rest ++ below)) unreserved.head
      exact Setoid.trans (descendant_congr stored rest)
        (inductionHypothesis (canonical.child key) unreserved.tail)

/-- Seen from below, a replaced descendant is a part of the replacement. -/
theorem descendant_setDescendant_above
    {node replacement : Node} (canonical : node.Canonical)
    (replacementCanonical : replacement.Canonical)
    {path : Path} (unreserved : path.Unreserved) (below : Path) :
    (node.setDescendant path replacement).descendant (path ++ below) ≈
      replacement.descendant below := by
  rw [descendant_append]
  have replaced :=
    descendant_setDescendant_below canonical replacementCanonical
      unreserved []
  rw [List.append_nil] at replaced
  exact descendant_congr replaced below

/-- A replaced descendant does not show at a location that is neither above nor below. -/
theorem descendant_setDescendant_beside
    {node replacement : Node} (canonical : node.Canonical)
    (replacementCanonical : replacement.Canonical)
    {base path : Path} (unreserved : base.Unreserved)
    (notAbove : Path.contains path base = false)
    (notBelow : Path.contains base path = false) :
    (node.setDescendant path replacement).descendant base ≈
      node.descendant base := by
  induction base generalizing node path with
  | nil => cases notBelow
  | cons key rest inductionHypothesis =>
      cases path with
      | nil => cases notAbove
      | cons first others =>
          by_cases here : first = key
          · subst here
            rw [setDescendant_cons_of_not_priority unreserved.head]
            have stored :=
              child_setChild_self canonical
                ((canonical.child first).setDescendant
                  replacementCanonical others) unreserved.head
            refine Setoid.trans (descendant_congr stored rest) ?_
            refine inductionHypothesis (canonical.child first)
              unreserved.tail ?_ ?_
            · simpa [Path.contains] using notAbove
            · simpa [Path.contains] using notBelow
          · have elsewhere : key ≠ first := fun equal => here equal.symm
            rw [setDescendant]
            split
            · change ((node.setChild first replacement).child
                key).descendant rest ≈ (node.child key).descendant rest
              rw [child_setChild_of_ne canonical _ unreserved.head
                elsewhere]
            · change ((node.setChild first _).child key).descendant rest ≈
                (node.child key).descendant rest
              rw [child_setChild_of_ne canonical _ unreserved.head
                elsewhere]

end Node

end Replica
