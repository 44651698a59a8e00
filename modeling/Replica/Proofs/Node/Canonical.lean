import Replica.Proofs.Node.Same

/-!
# Canonical nodes

The operations on nodes keep them canonical. A canonical node is empty only if it is the empty
node, and it is determined by its own value and priority together with its children.
-/

namespace Replica.Node

/-- The children of a branch are in key order, none of them is empty, none is stored under the
priority key, and a branch without children has no priority; so at every level. -/
inductive Canonical : Node → Prop
  | leaf (value : Scalar) (priority : Option Priority) :
      Canonical (.leaf value priority)
  | branch {children : List (Key × Node)} {priority : Option Priority}
      (ascending : Sorted.Ascending children)
      (nonempty : ∀ entry ∈ children, entry.2.isEmpty = false)
      (unreserved : ∀ entry ∈ children, entry.1.isPriority = false)
      (canonical : ∀ entry ∈ children, Canonical entry.2)
      (bare : children = [] → priority = none) :
      Canonical (.branch children priority)

namespace Canonical

@[simp]
theorem empty : Canonical Node.empty :=
  branch List.Pairwise.nil
    (fun _ member => absurd member List.not_mem_nil)
    (fun _ member => absurd member List.not_mem_nil)
    (fun _ member => absurd member List.not_mem_nil)
    (fun _ => rfl)

@[simp]
theorem ofScalar (value : Scalar) : Canonical (Node.ofScalar value) :=
  leaf value none

theorem children_ascending
    {node : Node} (canonical : Canonical node) :
    Sorted.Ascending node.children := by
  cases canonical with
  | leaf _ _ => exact List.Pairwise.nil
  | branch ascending _ _ _ _ => exact ascending

theorem of_mem_children
    {node : Node} (canonical : Canonical node)
    {entry : Key × Node} (member : entry ∈ node.children) :
    Canonical entry.2 := by
  cases canonical with
  | leaf _ _ => cases member
  | branch _ _ _ canonical _ => exact canonical entry member

theorem nonempty_of_mem_children
    {node : Node} (canonical : Canonical node)
    {entry : Key × Node} (member : entry ∈ node.children) :
    entry.2.isEmpty = false := by
  cases canonical with
  | leaf _ _ => cases member
  | branch _ nonempty _ _ _ => exact nonempty entry member

theorem unreserved_of_mem_children
    {node : Node} (canonical : Canonical node)
    {entry : Key × Node} (member : entry ∈ node.children) :
    entry.1.isPriority = false := by
  cases canonical with
  | leaf _ _ => cases member
  | branch _ _ unreserved _ _ => exact unreserved entry member

/-- The only canonical node without data is the empty one. -/
theorem eq_empty
    {node : Node} (canonical : Canonical node)
    (noData : node.isEmpty = true) :
    node = Node.empty := by
  cases canonical with
  | leaf _ _ => simp [isEmpty] at noData
  | branch _ _ _ _ bare =>
      have childless := List.isEmpty_iff.mp noData
      subst childless
      rw [bare rfl]
      rfl

theorem ofSorted
    {children : List (Key × Node)}
    (ascending : Sorted.Ascending children)
    (nonempty : ∀ entry ∈ children, entry.2.isEmpty = false)
    (unreserved : ∀ entry ∈ children, entry.1.isPriority = false)
    (canonical : ∀ entry ∈ children, Canonical entry.2)
    (priority : Option Priority) :
    Canonical (Node.ofSorted children priority) := by
  unfold Node.ofSorted
  split
  · exact empty
  · rename_i present
    exact branch ascending nonempty unreserved canonical
      (fun childless => absurd (List.isEmpty_iff.mpr childless) present)

theorem priorityNode (node : Node) : Canonical node.priorityNode := by
  unfold Node.priorityNode
  split
  · exact ofScalar _
  · exact empty

theorem child
    {node : Node} (canonical : Canonical node) (key : Key) :
    Canonical (node.child key) := by
  unfold Node.child
  split
  · exact priorityNode node
  · cases found : Sorted.find? key node.children with
    | none => exact empty
    | some stored =>
        exact canonical.of_mem_children
          (Sorted.mem_of_find?_eq_some found)

theorem descendant
    {node : Node} (canonical : Canonical node) :
    ∀ path : Path, Canonical (node.descendant path) := by
  intro path
  induction path generalizing node with
  | nil => exact canonical
  | cons key rest inductionHypothesis =>
      exact inductionHypothesis (canonical.child key)

theorem setPriority
    {node : Node} (canonical : Canonical node)
    (priority : Option Priority) :
    Canonical (node.setPriority priority) := by
  unfold Node.setPriority
  split
  · exact canonical
  · cases canonical with
    | leaf value _ => exact leaf value priority
    | @branch children old ascending nonempty unreserved canonical bare =>
        cases children with
        | nil =>
            exact branch ascending nonempty unreserved canonical bare
        | cons entry rest =>
            exact branch ascending nonempty unreserved canonical
              (fun childless => absurd childless (List.cons_ne_nil _ _))

theorem setChild
    {node newChild : Node} (canonical : Canonical node)
    (childCanonical : Canonical newChild) (key : Key) :
    Canonical (node.setChild key newChild) := by
  unfold Node.setChild
  split
  · exact canonical.setPriority _
  · rename_i unreservedKey
    have keyUnreserved : key.isPriority = false := by
      simpa using unreservedKey
    cases canonical with
    | leaf value priority =>
        by_cases noData : newChild.isEmpty = true
        · simp only [noData, if_true]
          exact leaf value priority
        · simp only [noData]
          refine branch (List.pairwise_singleton _ _) ?_ ?_ ?_
            (fun childless => absurd childless (List.cons_ne_nil _ _))
          · simpa using noData
          · simpa using keyUnreserved
          · simpa using childCanonical
    | @branch children priority ascending nonempty unreserved canonical bare =>
        have inserted (present : newChild.isEmpty = false) :
            Canonical
              (Node.ofSorted (Sorted.insert key newChild children)
                priority) := by
          refine ofSorted (Sorted.ascending_insert newChild ascending)
            ?_ ?_ ?_ priority
          · intro entry member
            rcases Sorted.mem_of_mem_insert member with fresh | old
            · exact fresh ▸ present
            · exact nonempty entry old
          · intro entry member
            rcases Sorted.mem_of_mem_insert member with fresh | old
            · exact fresh ▸ keyUnreserved
            · exact unreserved entry old
          · intro entry member
            rcases Sorted.mem_of_mem_insert member with fresh | old
            · exact fresh ▸ childCanonical
            · exact canonical entry old
        have unchanged : Canonical (.branch children priority) :=
          branch ascending nonempty unreserved canonical bare
        dsimp only
        split
        · split
          · exact unchanged
          · split
            · exact ofSorted (Sorted.ascending_erase ascending)
                (fun entry member =>
                  nonempty entry (Sorted.mem_of_mem_erase member))
                (fun entry member =>
                  unreserved entry (Sorted.mem_of_mem_erase member))
                (fun entry member =>
                  canonical entry (Sorted.mem_of_mem_erase member))
                priority
            · rename_i present
              exact inserted (by simpa using present)
        · split
          · exact unchanged
          · rename_i present
            exact inserted (by simpa using present)

theorem setDescendant
    {node replacement : Node} (canonical : Canonical node)
    (replacementCanonical : Canonical replacement) (path : Path) :
    Canonical (node.setDescendant path replacement) := by
  induction path generalizing node with
  | nil => exact replacementCanonical
  | cons key rest inductionHypothesis =>
      unfold Node.setDescendant
      split
      · exact canonical.setChild replacementCanonical key
      · exact canonical.setChild
          (inductionHypothesis (canonical.child key)) key

/-- Children put in one after the other keep a node canonical. -/
theorem foldl_setChild
    {start : Node} (canonical : Canonical start)
    {entries : List (Key × Node)}
    (entriesCanonical : ∀ entry ∈ entries, Canonical entry.2) :
    Canonical (entries.foldl
      (fun all entry => all.setChild entry.1 entry.2) start) := by
  induction entries generalizing start with
  | nil => exact canonical
  | cons entry rest inductionHypothesis =>
      obtain ⟨first, others⟩ := List.forall_mem_cons.mp entriesCanonical
      exact inductionHypothesis (canonical.setChild first entry.1) others

/-- A branch made of canonical children leaves out what it must not hold. -/
theorem ofChildren
    {entries : List (Key × Node)}
    (entriesCanonical : ∀ entry ∈ entries, Canonical entry.2) :
    Canonical (Node.ofChildren entries) := by
  have fine :
      ∀ entry ∈ Sorted.ofList (entries.filter fun entry =>
          !entry.2.isEmpty && !entry.1.isPriority),
        Canonical entry.2 ∧ entry.2.isEmpty = false ∧
          entry.1.isPriority = false := by
    intro entry member
    obtain ⟨old, fit⟩ :=
      List.mem_filter.mp (Sorted.mem_of_mem_ofList member)
    obtain ⟨nonempty, unreserved⟩ := Bool.and_eq_true_iff.mp fit
    exact ⟨entriesCanonical entry old, by simpa using nonempty,
      by simpa using unreserved⟩
  exact ofSorted (Sorted.ascending_ofList _)
    (fun entry member => (fine entry member).2.1)
    (fun entry member => (fine entry member).2.2)
    (fun entry member => (fine entry member).1) none

end Canonical

/-! ## Children of canonical nodes -/

/-- The empty node has no child under any key. -/
@[simp]
theorem child_empty (key : Key) : empty.child key = empty := by
  unfold child
  split <;> rfl

@[simp]
theorem descendant_empty (path : Path) :
    empty.descendant path = empty := by
  induction path with
  | nil => rfl
  | cons key rest inductionHypothesis =>
      rw [descendant, child_empty, inductionHypothesis]

theorem child_of_not_priority
    {key : Key} (unreserved : key.isPriority = false) (node : Node) :
    node.child key = (Sorted.find? key node.children).getD empty := by
  simp [child, unreserved]

theorem hasChild_of_not_priority
    {key : Key} (unreserved : key.isPriority = false) (node : Node) :
    node.hasChild key = (Sorted.find? key node.children).isSome := by
  simp [hasChild, unreserved, Sorted.contains]

theorem child_of_not_hasChild
    {node : Node} {key : Key} (unreserved : key.isPriority = false)
    (outside : node.hasChild key = false) : node.child key = empty := by
  rw [hasChild_of_not_priority unreserved, Option.isSome_eq_false_iff,
    Option.isNone_iff_eq_none] at outside
  rw [child_of_not_priority unreserved, outside]
  rfl

/-- A canonical node has a child exactly where something is stored. -/
theorem hasChild_eq_not_isEmpty
    {node : Node} (canonical : node.Canonical)
    {key : Key} (unreserved : key.isPriority = false) :
    node.hasChild key = !(node.child key).isEmpty := by
  rw [hasChild_of_not_priority unreserved,
    child_of_not_priority unreserved]
  cases found : Sorted.find? key node.children with
  | none => rfl
  | some stored =>
      have present :=
        canonical.nonempty_of_mem_children
          (Sorted.mem_of_find?_eq_some found)
      simp only [Option.isSome_some, Option.getD_some, present,
        Bool.not_false]

theorem find?_children
    {node : Node} (canonical : node.Canonical)
    {key : Key} (unreserved : key.isPriority = false) :
    Sorted.find? key node.children =
      if (node.child key).isEmpty then none
      else some (node.child key) := by
  rw [child_of_not_priority unreserved]
  cases found : Sorted.find? key node.children with
  | none => rfl
  | some stored =>
      have present :=
        canonical.nonempty_of_mem_children
          (Sorted.mem_of_find?_eq_some found)
      simp only [Option.getD_some, present, Bool.false_eq_true, if_false]

/-- A stored child is the one that is found under its key. -/
theorem child_of_mem_children
    {node : Node} (canonical : node.Canonical)
    {entry : Key × Node} (member : entry ∈ node.children) :
    node.child entry.1 = entry.2 := by
  rw [child_of_not_priority (canonical.unreserved_of_mem_children member),
    Sorted.find?_of_mem canonical.children_ascending member]
  rfl

theorem eq_of_mem_children
    {node : Node} (canonical : node.Canonical) {entry other : Key × Node}
    (member : entry ∈ node.children) (otherMember : other ∈ node.children)
    (same : entry.1 = other.1) : entry = other := by
  refine Prod.ext same ?_
  rw [← child_of_mem_children canonical member, same]
  exact child_of_mem_children canonical otherMember

/-- Of some children of a node, each is told by its key. -/
theorem contains_keys_iff
    {node : Node} (canonical : node.Canonical) {siblings : List (Key × Node)}
    (within : siblings ⊆ node.children) {entry : Key × Node}
    (member : entry ∈ node.children) :
    (siblings.map (·.1)).contains entry.1 = true ↔ entry ∈ siblings := by
  rw [List.contains_iff_mem, List.mem_map]
  constructor
  · rintro ⟨chosen, isChosen, same⟩
    rwa [← eq_of_mem_children canonical (within isChosen) member same]
  · exact fun isChosen => ⟨entry, isChosen, rfl⟩

theorem hasChild_of_mem_children
    {node : Node} (canonical : node.Canonical)
    {entry : Key × Node} (member : entry ∈ node.children) :
    node.hasChild entry.1 = true := by
  rw [hasChild_of_not_priority (canonical.unreserved_of_mem_children member),
    Sorted.find?_of_mem canonical.children_ascending member]
  rfl

theorem key_ne_of_not_hasChild
    {node : Node} (canonical : node.Canonical)
    {key : Key} (absent : node.hasChild key = false)
    {entry : Key × Node} (member : entry ∈ node.children) :
    entry.1 ≠ key := by
  rintro rfl
  rw [hasChild_of_mem_children canonical member] at absent
  cases absent

theorem mem_children_of_present
    {node : Node} (canonical : node.Canonical)
    {key : Key} (unreserved : key.isPriority = false)
    (present : (node.child key).isEmpty = false) :
    (key, node.child key) ∈ node.children := by
  refine Sorted.mem_of_find?_eq_some ?_
  rw [find?_children canonical unreserved, present]
  rfl

theorem mem_children_of_hasChild
    {node : Node} (canonical : node.Canonical)
    {key : Key} (unreserved : key.isPriority = false)
    (held : node.hasChild key = true) :
    (key, node.child key) ∈ node.children := by
  rw [hasChild_eq_not_isEmpty canonical unreserved] at held
  exact mem_children_of_present canonical unreserved (by simpa using held)

theorem equiv_empty_of_isEmpty
    {node : Node} (canonical : node.Canonical)
    (noData : node.isEmpty = true) : node ≈ empty := by
  rw [canonical.eq_empty noData]

@[simp]
theorem child_leaf
    {node : Node} (leaf : node.isLeaf = true)
    {key : Key} (unreserved : key.isPriority = false) :
    node.child key = empty := by
  rw [child_of_not_priority unreserved]
  cases node with
  | leaf _ _ => rfl
  | branch _ _ => cases leaf

theorem isEmpty_iff
    {node : Node} (canonical : node.Canonical) :
    node.isEmpty = true ↔
      node.isLeaf = false ∧
        ∀ key : Key, key.isPriority = false →
          (node.child key).isEmpty = true := by
  constructor
  · intro noData
    rw [canonical.eq_empty noData]
    refine ⟨rfl, fun key _ => ?_⟩
    rw [child_empty]
    rfl
  · rintro ⟨notLeaf, childless⟩
    cases node with
    | leaf _ _ => simp [isLeaf] at notLeaf
    | branch children priority =>
        cases children with
        | nil => rfl
        | cons entry rest =>
            have member : entry ∈ (branch (entry :: rest) priority).children :=
              List.mem_cons_self
            have noChild :=
              childless entry.1 (canonical.unreserved_of_mem_children member)
            rw [child_of_mem_children canonical member,
              canonical.nonempty_of_mem_children member] at noChild
            cases noChild

/-- Beside a node without data, a node with the same children is the same unless it is a leaf. -/
theorem equiv_of_isEmpty
    {node data : Node} (canonical : node.Canonical)
    (dataCanonical : data.Canonical) (noData : node.isEmpty = true)
    (branch : data.isLeaf = false)
    (sameChildren : ∀ key : Key, key.isPriority = false →
      node.child key ≈ data.child key) :
    node ≈ data := by
  have childless := ((isEmpty_iff canonical).mp noData).2
  have nothing : data.isEmpty = true :=
    (isEmpty_iff dataCanonical).mpr ⟨branch, fun key unreserved =>
      (isEmpty_congr (sameChildren key unreserved)).symm.trans
        (childless key unreserved)⟩
  exact Setoid.trans (equiv_empty_of_isEmpty canonical noData)
    (Setoid.symm (equiv_empty_of_isEmpty dataCanonical nothing))

theorem isLeaf_eq_isSome_value? (node : Node) :
    node.isLeaf = node.value?.isSome := by
  cases node with
  | leaf _ _ => rfl
  | branch _ _ => rfl

/-- The children and the value decide whether there is data. -/
theorem isEmpty_eq_of_children
    {left right : Node}
    (leftCanonical : left.Canonical) (rightCanonical : right.Canonical)
    (sameValue :
      Option.Rel (fun a b => compare a b = .eq) left.value? right.value?)
    (sameChildren : ∀ key : Key, key.isPriority = false →
      left.child key ≈ right.child key) :
    left.isEmpty = right.isEmpty := by
  have sameKind : left.isLeaf = right.isLeaf := by
    rw [isLeaf_eq_isSome_value?, isLeaf_eq_isSome_value?]
    generalize left.value? = value at *
    generalize right.value? = other at *
    cases sameValue with
    | none => rfl
    | some _ => rfl
  rw [Bool.eq_iff_iff, isEmpty_iff leftCanonical,
    isEmpty_iff rightCanonical, sameKind]
  refine and_congr_right fun _ => forall_congr' fun key =>
    forall_congr' fun unreserved => ?_
  rw [isEmpty_congr (sameChildren key unreserved)]

/-- Children related key by key are related as lists. -/
theorem forall₂_children
    {relation : Node → Node → Prop} {left right : Node}
    (leftCanonical : left.Canonical) (rightCanonical : right.Canonical)
    (sameEmpty : ∀ key : Key, key.isPriority = false →
      (left.child key).isEmpty = (right.child key).isEmpty)
    (related : ∀ key : Key, key.isPriority = false →
      relation (left.child key) (right.child key)) :
    List.Forall₂ (fun a b => a.1 = b.1 ∧ relation a.2 b.2)
      left.children right.children := by
  refine Sorted.forall₂_of_find? relation leftCanonical.children_ascending
    rightCanonical.children_ascending fun key => ?_
  by_cases reserved : key.isPriority = true
  · have absent (node : Node) (canonical : node.Canonical) :
        Sorted.find? key node.children = none := by
      rw [Option.eq_none_iff_forall_ne_some]
      intro stored found
      have unreserved :=
        canonical.unreserved_of_mem_children
          (Sorted.mem_of_find?_eq_some found)
      rw [reserved] at unreserved
      cases unreserved
    rw [absent _ leftCanonical, absent _ rightCanonical]
    exact Option.Rel.none
  · have unreserved : key.isPriority = false := by
      simpa using reserved
    rw [find?_children leftCanonical unreserved,
      find?_children rightCanonical unreserved, sameEmpty key unreserved]
    split
    · exact Option.Rel.none
    · exact Option.Rel.some (related key unreserved)

/-- Canonical nodes with the same children, the same value and the same priority are the same. -/
theorem equiv_of_children
    {left right : Node}
    (leftCanonical : left.Canonical) (rightCanonical : right.Canonical)
    (sameValue :
      Option.Rel (fun a b => compare a b = .eq) left.value? right.value?)
    (samePriority :
      Priority.orderOptional left.priority? right.priority? = .eq)
    (sameChildren : ∀ key : Key, key.isPriority = false →
      left.child key ≈ right.child key) :
    left ≈ right := by
  have related :=
    forall₂_children leftCanonical rightCanonical
      (fun key unreserved => isEmpty_congr (sameChildren key unreserved))
      sameChildren
  cases left <;> cases right
  · cases sameValue with
    | some equal => exact equiv_leaf_iff.mpr ⟨samePriority, equal⟩
  · cases sameValue
  · cases sameValue
  · exact equiv_branch_iff.mpr ⟨samePriority, related⟩

/-- Over a branch with the same children, only a leaf over no data can be. -/
theorem isLeaf_eq_false_of_children
    {node data : Node} (dataCanonical : data.Canonical)
    (sameChildren : ∀ key : Key, key.isPriority = false →
      node.child key ≈ data.child key)
    (branch : data.isLeaf = false)
    (noLeftover : ¬ (node.isLeaf = true ∧ data.isEmpty = true)) :
    node.isLeaf = false := by
  rw [Bool.eq_false_iff]
  intro leaf
  refine noLeftover ⟨leaf, (isEmpty_iff dataCanonical).mpr
    ⟨branch, fun key unreserved => ?_⟩⟩
  rw [← isEmpty_congr (sameChildren key unreserved),
    child_leaf leaf unreserved]
  rfl

theorem value?_of_branch
    {node : Node} (branch : node.isLeaf = false) : node.value? = none := by
  rw [isLeaf_eq_isSome_value?] at branch
  exact Option.not_isSome_iff_eq_none.mp (Bool.eq_false_iff.mp branch)

/-- Nodes with the same children, where the first shows the second if that is a leaf, are the same
unless their priorities differ or the first is a leaf over no data. -/
theorem same_iff_of_children
    {node data : Node} (canonical : node.Canonical)
    (dataCanonical : data.Canonical)
    (sameChildren : ∀ key : Key, key.isPriority = false →
      node.child key ≈ data.child key)
    (sameLeaf : data.isLeaf = true → node ≈ data) :
    node.same data = true ↔
      Priority.orderOptional node.priority? data.priority? = .eq ∧
        ¬ (node.isLeaf = true ∧ data.isEmpty = true) := by
  constructor
  · intro equal
    refine ⟨priority?_congr equal, ?_⟩
    rintro ⟨leaf, noData⟩
    rw [isLeaf_congr equal, dataCanonical.eq_empty noData] at leaf
    cases leaf
  · rintro ⟨samePriority, noLeftover⟩
    cases dataLeaf : data.isLeaf with
    | true => exact sameLeaf dataLeaf
    | false =>
        have branch :=
          isLeaf_eq_false_of_children dataCanonical sameChildren dataLeaf
            noLeftover
        refine equiv_of_children canonical dataCanonical ?_ samePriority
          sameChildren
        rw [value?_of_branch branch, value?_of_branch dataLeaf]
        exact Option.Rel.none

end Replica.Node
