import Mathlib.Data.List.Nodup
import Replica.Proofs.Node.Data
import Replica.Proofs.Overlay.Replay

/-!
# Priorities in the order of the paths

An overlay holds its priorities back until its data are in place. Made in the order of their paths
instead, the writes give the same data, and a priority among them is lost exactly if its turn comes
while there are no data yet, or if the data go and come back after it.
-/

namespace Replica

private theorem Priority.eq_none_of_orderOptional
    {priority : Option Priority}
    (equal : orderOptional priority none = .eq) : priority = none := by
  cases priority with
  | none => rfl
  | some _ => cases equal

namespace Node

/-! ## Data and priorities apart -/

@[simp]
private theorem dataEq_setPriority
    (node : Node) (priority : Option Priority) :
    (node.setPriority priority).dataEq node = true := by
  unfold setPriority
  split
  · exact dataEq_refl node
  · cases node with
    | leaf value old =>
        exact leaf_dataEq_leaf.mpr
          (leaf_dataEq_leaf.mp (dataEq_refl (leaf value old)))
    | branch children old =>
        cases children with
        | nil => exact dataEq_refl _
        | cons child rest =>
            exact branch_dataEq_branch.mpr (branch_dataEq_branch.mp
              (dataEq_refl (branch (child :: rest) old)))

/-- A priority is no data. -/
theorem dataEq_setDescendant_priority
    {node : Node} (canonical : node.Canonical)
    {path : Path} (priority : Overlay.isPriorityPath path = true)
    {replacement : Node} (replacementCanonical : replacement.Canonical) :
    (node.setDescendant path replacement).dataEq node = true := by
  induction path generalizing node with
  | nil => cases priority
  | cons key rest inductionHypothesis =>
      by_cases reserved : key.isPriority = true
      · rw [setDescendant_cons_of_priority reserved]
        exact dataEq_setPriority node _
      · have unreserved : key.isPriority = false := by
          simpa using reserved
        have further : Overlay.isPriorityPath rest = true := by
          cases rest with
          | nil =>
              change key.isPriority = true at priority
              exact absurd priority reserved
          | cons next others => exact priority
        have unchanged : node.setChild key (node.child key) = node :=
          setChild_of_same unreserved (same_refl (node.child key))
        have childCanonical := canonical.child key
        have replaced := setChild_of_dataEq (dataEq_refl node)
          (inductionHypothesis childCanonical further) canonical canonical
          (childCanonical.setDescendant replacementCanonical rest)
          childCanonical unreserved
        rw [unchanged] at replaced
        rw [setDescendant_cons_of_not_priority unreserved]
        exact replaced

/-- Two nodes are the same if they hold the same data and no location shows another priority in one
than in the other. -/
theorem equiv_iff_dataEq
    {left right : Node}
    (leftCanonical : left.Canonical) (rightCanonical : right.Canonical) :
    left ≈ right ↔
      left.dataEq right = true ∧
        ∀ base : Path, base.Unreserved →
          Priority.orderOptional (left.descendant base).priority?
            (right.descendant base).priority? = .eq := by
  constructor
  · intro equal
    exact ⟨dataEq_of_equiv equal, fun base _ =>
      priority?_congr (descendant_congr equal base)⟩
  · rintro ⟨sameData, samePriorities⟩
    induction left using induct generalizing right with
    | leaf value priority =>
        cases right with
        | leaf other otherPriority =>
            exact equiv_leaf_iff.mpr
              ⟨samePriorities [] fun _ member => absurd member List.not_mem_nil,
                leaf_dataEq_leaf.mp sameData⟩
        | branch _ _ => exact absurd sameData not_leaf_dataEq_branch
    | branch children priority inductionHypothesis =>
        refine equiv_of_children leftCanonical rightCanonical
          (value?_of_dataEq sameData)
          (samePriorities [] fun _ member => absurd member List.not_mem_nil)
          fun key unreserved => ?_
        have childData := child_of_dataEq sameData unreserved
        have childPriorities (base : Path) (plain : base.Unreserved) :=
          samePriorities (key :: base)
            (List.forall_mem_cons.mpr ⟨unreserved, plain⟩)
        cases present : ((branch children priority).child key).isEmpty with
        | true =>
            have childless := (leftCanonical.child key).eq_empty present
            rw [isEmpty_of_dataEq childData] at present
            rw [childless, (rightCanonical.child key).eq_empty present]
        | false =>
            exact inductionHypothesis
              (key, (branch children priority).child key)
              (mem_children_of_present leftCanonical unreserved present)
              (leftCanonical.child key) (rightCanonical.child key) childData
              childPriorities

/-- Writes over the same data give the data that they give without the priorities. -/
theorem dataEq_lay_filter
    {left right : Node} (equal : left.dataEq right = true)
    (leftCanonical : left.Canonical) (rightCanonical : right.Canonical)
    {writes : List (Path × Node)}
    (writesCanonical : ∀ write ∈ writes, write.2.Canonical) :
    (left.lay writes).dataEq
      (right.lay (writes.filter fun write =>
        !Overlay.isPriorityPath write.1)) = true := by
  induction writes generalizing left right with
  | nil => exact equal
  | cons write rest inductionHypothesis =>
      obtain ⟨first, others⟩ := List.forall_mem_cons.mp writesCanonical
      have written := leftCanonical.setDescendant first write.1
      cases priority : Overlay.isPriorityPath write.1 with
      | true =>
          rw [List.filter_cons_of_neg (by simp [priority])]
          exact inductionHypothesis
            (dataEq_trans
              (dataEq_setDescendant_priority leftCanonical priority first)
              equal)
            written rightCanonical others
      | false =>
          rw [List.filter_cons_of_pos (by simp [priority])]
          exact inductionHypothesis
            (setDescendant_of_dataEq equal leftCanonical rightCanonical
              first write.1)
            written (rightCanonical.setDescendant first write.1) others

theorem dataEq_lay
    {left right : Node} (equal : left.dataEq right = true)
    (leftCanonical : left.Canonical) (rightCanonical : right.Canonical)
    {writes : List (Path × Node)}
    (writesCanonical : ∀ write ∈ writes, write.2.Canonical) :
    (left.lay writes).dataEq (right.lay writes) = true :=
  dataEq_trans
    (dataEq_lay_filter equal leftCanonical rightCanonical writesCanonical)
    (dataEq_symm (dataEq_lay_filter (dataEq_refl right) rightCanonical
      rightCanonical writesCanonical))

/-! ## The priority of a node while its children are written -/

private theorem priority?_of_isEmpty
    {node : Node} (canonical : node.Canonical)
    (noData : node.isEmpty = true) : node.priority? = none := by
  rw [canonical.eq_empty noData]
  rfl

/-- A node loses its priority with its data. -/
theorem priority?_setDescendant
    {node : Node} (canonical : node.Canonical)
    {path : Path} (inChild : path.InChild) (replacement : Node) :
    (node.setDescendant path replacement).priority? =
      if (node.setDescendant path replacement).isEmpty then none
      else node.priority? := by
  cases path with
  | nil => cases inChild
  | cons key rest =>
      have unreserved : key.isPriority = false := inChild
      rw [setDescendant_cons_of_not_priority unreserved]
      exact priority?_setChild canonical _ unreserved

/-- A priority further down does not matter for the one here. -/
theorem priority?_setDescendant_of_priority
    {node : Node} (canonical : node.Canonical)
    {path : Path} (inChild : path.InChild)
    (priority : Overlay.isPriorityPath path = true)
    {replacement : Node} (replacementCanonical : replacement.Canonical) :
    (node.setDescendant path replacement).priority? = node.priority? := by
  rw [priority?_setDescendant canonical inChild, isEmpty_of_dataEq
    (dataEq_setDescendant_priority canonical priority replacementCanonical)]
  split
  · rename_i noData
    exact (priority?_of_isEmpty canonical noData).symm
  · rfl

/-- Priorities further down do not matter for the one here. -/
theorem priority?_lay_filter
    {left right : Node} (equal : left.dataEq right = true)
    (samePriority : left.priority? = right.priority?)
    (leftCanonical : left.Canonical) (rightCanonical : right.Canonical)
    {writes : List (Path × Node)}
    (writesCanonical : ∀ write ∈ writes, write.2.Canonical)
    (inChild : ∀ write ∈ writes, write.1.InChild) :
    (left.lay writes).priority? =
      (right.lay (writes.filter fun write =>
        !Overlay.isPriorityPath write.1)).priority? := by
  induction writes generalizing left right with
  | nil => exact samePriority
  | cons write rest inductionHypothesis =>
      obtain ⟨first, others⟩ := List.forall_mem_cons.mp writesCanonical
      obtain ⟨firstInChild, othersInChild⟩ := List.forall_mem_cons.mp inChild
      have written := leftCanonical.setDescendant first write.1
      cases priority : Overlay.isPriorityPath write.1 with
      | true =>
          have sameData :=
            dataEq_setDescendant_priority leftCanonical priority first
          rw [List.filter_cons_of_neg (by simp [priority])]
          refine inductionHypothesis (dataEq_trans sameData equal) ?_ written
            rightCanonical others othersInChild
          rw [priority?_setDescendant_of_priority leftCanonical firstInChild
            priority first, samePriority]
      | false =>
          have sameData :=
            setDescendant_of_dataEq equal leftCanonical rightCanonical first
              write.1
          rw [List.filter_cons_of_pos (by simp [priority])]
          refine inductionHypothesis sameData ?_ written
            (rightCanonical.setDescendant first write.1) others othersInChild
          rw [priority?_setDescendant leftCanonical firstInChild,
            priority?_setDescendant rightCanonical firstInChild,
            isEmpty_of_dataEq sameData, samePriority]

section

variable {node : Node} (canonical : node.Canonical)
  {writes : List (Path × Node)}
  (writesCanonical : ∀ write ∈ writes, write.2.Canonical)
  (inChild : ∀ write ∈ writes, write.1.InChild)

include canonical writesCanonical inChild

private theorem priority?_lay_of_none (none' : node.priority? = none) :
    (node.lay writes).priority? = none := by
  induction writes generalizing node with
  | nil => exact none'
  | cons write rest inductionHypothesis =>
      obtain ⟨first, others⟩ := List.forall_mem_cons.mp writesCanonical
      obtain ⟨firstInChild, othersInChild⟩ := List.forall_mem_cons.mp inChild
      refine inductionHypothesis (canonical.setDescendant first write.1)
        others othersInChild ?_
      rw [priority?_setDescendant canonical firstInChild, none', ite_self]

/-- A node that has data all the time keeps its priority. -/
theorem priority?_lay_of_lasting
    (lasting : ∀ soon, soon <+: writes → (node.lay soon).isEmpty = false) :
    (node.lay writes).priority? = node.priority? := by
  induction writes generalizing node with
  | nil => rfl
  | cons write rest inductionHypothesis =>
      obtain ⟨first, others⟩ := List.forall_mem_cons.mp writesCanonical
      obtain ⟨firstInChild, othersInChild⟩ := List.forall_mem_cons.mp inChild
      have present :
          (node.setDescendant write.1 write.2).isEmpty = false :=
        lasting [write] (List.prefix_append [write] rest)
      rw [lay_cons, inductionHypothesis
        (canonical.setDescendant first write.1) others othersInChild
        fun soon early => lasting (write :: soon)
          ((List.prefix_cons_inj write).mpr early)]
      rw [priority?_setDescendant canonical firstInChild, present,
        if_neg Bool.false_ne_true]

/-- A node that is without data for a moment has lost its priority. -/
theorem priority?_lay_of_vanishing
    {soon : List (Path × Node)} (early : soon <+: writes)
    (vanishing : (node.lay soon).isEmpty = true) :
    (node.lay writes).priority? = none := by
  obtain ⟨late, rfl⟩ := early
  have soonCanonical := (List.forall_mem_append.mp writesCanonical).1
  have between := canonical.lay soonCanonical
  rw [lay_append]
  exact priority?_lay_of_none between
    (List.forall_mem_append.mp writesCanonical).2
    (List.forall_mem_append.mp inChild).2
    (priority?_of_isEmpty between vanishing)

/-- A priority set before the writes stays as it would if it were set after them exactly if the data
last. -/
theorem priority?_lay_setPriority_iff (priority : Option Priority) :
    Priority.orderOptional ((node.setPriority priority).lay writes).priority?
        (if (node.lay writes).isEmpty then none else priority) = .eq ↔
      (priority.isSome = true → (node.lay writes).isEmpty = false →
        ∀ soon, soon <+: writes → (node.lay soon).isEmpty = false) := by
  have marked := canonical.setPriority priority
  have set' := priority?_setPriority canonical priority
  have sameEmpty (soon : List (Path × Node)) (early : soon <+: writes) :
      ((node.setPriority priority).lay soon).isEmpty =
        (node.lay soon).isEmpty :=
    isEmpty_of_dataEq (dataEq_lay (dataEq_setPriority node priority) marked
      canonical fun write member =>
        writesCanonical write (early.subset member))
  cases priority with
  | none =>
      rw [ite_self] at set' ⊢
      rw [priority?_lay_of_none marked writesCanonical inChild
        (Priority.eq_none_of_orderOptional set')]
      exact iff_of_true rfl nofun
  | some priority =>
      by_cases lasting : ∀ soon, soon <+: writes →
          (node.lay soon).isEmpty = false
      · have presentBefore : node.isEmpty = false :=
          lasting [] List.nil_prefix
        rw [presentBefore, if_neg Bool.false_ne_true] at set'
        refine iff_of_true ?_ fun _ _ => lasting
        rw [priority?_lay_of_lasting marked writesCanonical inChild
          fun soon early => (sameEmpty soon early).trans (lasting soon early),
          lasting writes (List.prefix_refl writes),
          if_neg Bool.false_ne_true]
        exact set'
      · obtain ⟨soon, early, vanishing⟩ :
            ∃ soon, soon <+: writes ∧ (node.lay soon).isEmpty = true := by
          simpa using lasting
        rw [priority?_lay_of_vanishing marked writesCanonical inChild early
          ((sameEmpty soon early).trans vanishing)]
        cases noData : (node.lay writes).isEmpty with
        | true => exact iff_of_true rfl fun _ => nofun
        | false => exact iff_of_false nofun fun lands => lasting (lands rfl rfl)

end

end Node

namespace Overlay

/-- Every priority that takes effect in the end meets data when it is written, and the data stay
from then on. -/
def Lands (nodes : Overlay) (data : Node) : Prop :=
  ∀ before after (base : Path) value,
    nodes.writes = before ++ (base ++ [.priority], value) :: after →
    (value.value?.bind Priority.ofScalar?).isSome = true →
    ((nodes.apply data).descendant base).isEmpty = false →
    ∀ soon, soon <+: after →
      ((data.lay (before ++ soon)).descendant base).isEmpty = false

@[simp]
private theorem filter_laid (nodes : Overlay) :
    nodes.laid.filter (fun write => !isPriorityPath write.1) =
      nodes.writes.filter fun write => !isPriorityPath write.1 := by
  rw [laid, List.filter_append, List.filter_filter, List.filter_filter]
  simp

/-- In the order of the paths, the writes give the data that the overlay gives. -/
theorem dataEq_lay_writes
    {nodes : Overlay} (valid : nodes.Valid)
    {data : Node} (canonical : data.Canonical) :
    (data.lay nodes.writes).dataEq (nodes.apply data) = true := by
  have given := Node.dataEq_lay_filter (Node.dataEq_refl data) canonical
    canonical valid.canonical
  have heldBack := Node.dataEq_lay_filter (Node.dataEq_refl data) canonical
    canonical valid.canonical_of_mem_laid
  rw [filter_laid, ← apply_eq_lay] at heldBack
  exact Node.dataEq_trans given (Node.dataEq_symm heldBack)

/-! ## The priority of the location itself -/

section

variable {nodes : Overlay} (valid : nodes.Valid)
  (writable : ∀ write ∈ nodes.writes, write.1.Writable)
  {before after : List (Path × Node)} {value : Node}
  (split : nodes.writes = before ++ ([.priority], value) :: after)

include valid writable split

/-- Beside a priority of the location, all writes lie below its children. -/
theorem inChild_of_split : ∀ write ∈ before ++ after, write.1.InChild := by
  intro write member
  have writeMember : write ∈ nodes.writes := by
    rw [split]
    rcases List.mem_append.mp member with early | late
    · exact List.mem_append_left _ early
    · exact List.mem_append_right _ (List.mem_cons_of_mem _ late)
  have here : ([.priority], value) ∈ nodes.writes := by
    rw [split]
    exact List.mem_append_right _ List.mem_cons_self
  have alone : write.1 ≠ [.priority] := by
    have distinct := Sorted.nodup_keys valid.ascending
    rw [split, List.map_append, List.map_cons, List.nodup_middle,
      ← List.map_append] at distinct
    intro same
    exact (List.nodup_cons.mp distinct).1
      (List.mem_map.mpr ⟨write, member, same⟩)
  refine (writable write writeMember).inChild (fun located => ?_) alone
  have covered := valid.eq_of_contains writeMember here (by
    rw [located]
    rfl)
  rw [covered] at located
  cases located

variable {data : Node} (canonical : data.Canonical)

include canonical

/-- Held back, the priority takes effect if there are data. -/
theorem priority?_apply_of_split :
    Priority.orderOptional (nodes.apply data).priority?
      (if (nodes.apply data).isEmpty then none
        else value.value?.bind Priority.ofScalar?) = .eq := by
  let plain := fun write : Path × Node => !isPriorityPath write.1
  let ends := fun write : Path × Node => isPriorityPath write.1
  have inChild := inChild_of_split valid writable split
  have laid : nodes.laid =
      nodes.writes.filter plain ++ before.filter ends ++
        ([.priority], value) :: after.filter ends := by
    rw [Overlay.laid, List.append_assoc]
    congr 1
    rw [split, List.filter_append, List.filter_cons_of_pos rfl]
  have nodesCanonical := valid.canonical_of_mem_laid
  rw [laid, List.forall_mem_append, List.forall_mem_cons] at nodesCanonical
  obtain ⟨earlyCanonical, valueCanonical, lateCanonical⟩ := nodesCanonical
  have lateInChild : ∀ write ∈ after.filter ends, write.1.InChild :=
    fun write member => inChild write
      (List.mem_append_right _ (List.mem_filter.mp member).1)
  have lateData : (after.filter ends).filter plain = [] := by
    rw [List.filter_filter]
    exact List.filter_eq_nil_iff.mpr fun write _ => by simp [plain, ends]
  have met := canonical.lay earlyCanonical
  generalize isMet : data.lay (nodes.writes.filter plain ++ before.filter ends) = data'
    at met
  have marked := met.setPriority (value.value?.bind Priority.ofScalar?)
  have written : nodes.apply data =
      (data'.setPriority (value.value?.bind Priority.ofScalar?)).lay
        (after.filter ends) := by
    rw [apply_eq_lay, laid, Node.lay_append, isMet, Node.lay_cons]
    rfl
  have sameData := Node.dataEq_lay_filter (Node.dataEq_refl _) marked
    marked lateCanonical
  have samePriority := Node.priority?_lay_filter (Node.dataEq_refl _) rfl
    marked marked lateCanonical lateInChild
  rw [lateData, Node.lay_nil, ← written] at sameData samePriority
  rw [samePriority, Node.isEmpty_of_dataEq sameData,
    Node.isEmpty_setPriority]
  exact Node.priority?_setPriority met _

/-- In the order of the paths, the priority stays as it would if it were held back exactly if it
lands on lasting data. -/
theorem priority?_agrees_iff_of_split :
    Priority.orderOptional (data.lay nodes.writes).priority?
        (nodes.apply data).priority? = .eq ↔
      ((value.value?.bind Priority.ofScalar?).isSome = true →
        (nodes.apply data).isEmpty = false →
          ∀ soon, soon <+: after →
            (data.lay (before ++ soon)).isEmpty = false) := by
  have inChild := List.forall_mem_append.mp
    (inChild_of_split valid writable split)
  have heldBack := priority?_apply_of_split valid writable split canonical
  have sameData : (data.lay nodes.writes).dataEq (nodes.apply data) = true :=
    dataEq_lay_writes valid canonical
  have nodesCanonical := valid.canonical
  rw [split, List.forall_mem_append, List.forall_mem_cons] at nodesCanonical
  obtain ⟨beforeCanonical, _, afterCanonical⟩ := nodesCanonical
  have met := canonical.lay beforeCanonical
  have written : data.lay nodes.writes =
      ((data.lay before).setPriority
        (value.value?.bind Priority.ofScalar?)).lay after := by
    rw [split, Node.lay_append, Node.lay_cons]
    rfl
  have sameEmpty : ((data.lay before).lay after).isEmpty =
      (nodes.apply data).isEmpty := by
    rw [written] at sameData
    exact Node.isEmpty_of_dataEq (Node.dataEq_trans (Node.dataEq_lay
      (Node.dataEq_symm (Node.dataEq_setPriority _ _)) met
      (met.setPriority _) afterCanonical) sameData)
  have landsIff := Node.priority?_lay_setPriority_iff met afterCanonical
    inChild.2 (value.value?.bind Priority.ofScalar?)
  rw [sameEmpty, ← written] at landsIff
  simp only [← Node.lay_append] at landsIff
  refine Iff.trans ?_ landsIff
  exact ⟨fun agrees => Priority.orderOptional_trans agrees heldBack,
    fun agrees => Priority.orderOptional_trans agrees
      (Priority.orderOptional_symm heldBack)⟩

end

/-- Where the writes hold no priority of the location, its priority does not depend on the order. -/
theorem priority?_agrees_of_unsplit
    {nodes : Overlay} (valid : nodes.Valid)
    (writable : ∀ write ∈ nodes.writes, write.1.Writable)
    (unsplit : ∀ write ∈ nodes.writes, write.1 ≠ [.priority])
    {data : Node} (canonical : data.Canonical) :
    (data.lay nodes.writes).priority? = (nodes.apply data).priority? := by
  cases root : nodes.root? with
  | some node =>
      rw [apply_of_root? valid root, writes_of_root? valid root]
      rfl
  | none =>
      have proper := proper_of_mem_laid valid root
      have inChild : ∀ write ∈ nodes.writes, write.1.InChild :=
        fun write member =>
          (writable write member).inChild
            (proper write (mem_laid.mpr member)) (unsplit write member)
      have given := Node.priority?_lay_filter (Node.dataEq_refl data) rfl
        canonical canonical valid.canonical inChild
      have heldBack := Node.priority?_lay_filter (Node.dataEq_refl data) rfl
        canonical canonical valid.canonical_of_mem_laid
        fun write member => inChild write (mem_laid.mp member)
      rw [filter_laid, ← apply_eq_lay] at heldBack
      exact given.trans heldBack.symm

/-- What `Lands` says about the priority of the location itself. -/
def LandsHere (nodes : Overlay) (data : Node) : Prop :=
  ∀ before after value,
    nodes.writes = before ++ ([.priority], value) :: after →
    (value.value?.bind Priority.ofScalar?).isSome = true →
    (nodes.apply data).isEmpty = false →
    ∀ soon, soon <+: after → (data.lay (before ++ soon)).isEmpty = false

private theorem priority?_agrees_iff
    {nodes : Overlay} (valid : nodes.Valid)
    (writable : ∀ write ∈ nodes.writes, write.1.Writable)
    {data : Node} (canonical : data.Canonical) :
    Priority.orderOptional (data.lay nodes.writes).priority?
        (nodes.apply data).priority? = .eq ↔ nodes.LandsHere data := by
  constructor
  · intro agrees before after value split
    exact (priority?_agrees_iff_of_split valid writable split canonical).mp
      agrees
  · intro lands
    by_cases unsplit : ∀ write ∈ nodes.writes, write.1 ≠ [.priority]
    · rw [priority?_agrees_of_unsplit valid writable unsplit canonical]
      exact Priority.orderOptional_self _
    · obtain ⟨value, member⟩ :
          ∃ value, ([.priority], value) ∈ nodes.writes := by
        simpa using unsplit
      obtain ⟨before, after, split⟩ := List.mem_iff_append.mp member
      exact (priority?_agrees_iff_of_split valid writable split
        canonical).mpr (lands before after value split)

/-! ## All locations -/

private theorem writable_restrict
    {nodes : Overlay} (valid : nodes.Valid)
    (writable : ∀ write ∈ nodes.writes, write.1.Writable) (base : Path) :
    ∀ write ∈ (nodes.restrict base).writes, write.1.Writable := by
  intro write member
  rw [writes_restrict valid] at member
  obtain ⟨whole, wholeMember, isSeen⟩ := List.mem_filterMap.mp member
  exact writable_of_seenFrom (writable whole wholeMember) isSeen

section

variable {nodes : Overlay} (valid : nodes.Valid)
  {data : Node} (canonical : data.Canonical)
  {base : Path} (unreserved : base.Unreserved)

include valid canonical unreserved

/-- The priority that a location shows is the one that the writes seen from there give it. -/
theorem priority?_agrees_iff_restrict :
    Priority.orderOptional ((data.lay nodes.writes).descendant base).priority?
        ((nodes.apply data).descendant base).priority? = .eq ↔
      Priority.orderOptional
        ((data.descendant base).lay (nodes.restrict base).writes).priority?
        ((nodes.restrict base).apply (data.descendant base)).priority? =
          .eq := by
  have given := Node.priority?_congr
    (Node.descendant_lay canonical unreserved valid.canonical)
  have heldBack := Node.priority?_congr
    (descendant_apply valid unreserved canonical)
  rw [← writes_restrict valid] at given
  constructor
  · intro agrees
    exact Priority.orderOptional_trans (Priority.orderOptional_symm given)
      (Priority.orderOptional_trans agrees heldBack)
  · intro agrees
    exact Priority.orderOptional_trans given
      (Priority.orderOptional_trans agrees
        (Priority.orderOptional_symm heldBack))

/-- Whether a location has data after some of the writes can be told from what is seen there. -/
theorem isEmpty_descendant_lay
    {before after soon : List (Path × Node)} {write : Path × Node}
    (split : nodes.writes = before ++ write :: after)
    (early : soon <+: after) :
    ((data.lay (before ++ soon)).descendant base).isEmpty =
      ((data.descendant base).lay (before.filterMap (seenFrom base) ++
        soon.filterMap (seenFrom base))).isEmpty := by
  rw [← List.filterMap_append]
  refine Node.isEmpty_congr (Node.descendant_lay canonical unreserved
    fun other member => valid.canonical other ?_)
  rw [split]
  rcases List.mem_append.mp member with earlier | later
  · exact List.mem_append_left _ earlier
  · exact List.mem_append_right _
      (List.mem_cons_of_mem _ (early.subset later))

private theorem Lands.restrict (lands : nodes.Lands data) :
    (nodes.restrict base).LandsHere (data.descendant base) := by
  intro seenBefore seenAfter value seenSplit isPriority present seenSoon
    seenEarly
  rw [writes_restrict valid, List.filterMap_eq_append_iff] at seenSplit
  obtain ⟨before, rest, split, rfl, isRest⟩ := seenSplit
  obtain ⟨skipped, write, after, restSplit, unseen, isSeen, rfl⟩ :=
    List.filterMap_eq_cons_iff.mp isRest
  obtain ⟨soon, early, rfl⟩ := List.prefix_filterMap_iff.mp seenEarly
  have located : write = (base ++ [.priority], value) := by
    rcases seenFrom_cases isSeen with ⟨atRoot, _⟩ | located
    · cases atRoot
    · exact located
  rw [restSplit, located, ← List.append_assoc] at split
  have shown := lands (before ++ skipped) after base value split isPriority
    ((Node.isEmpty_congr (descendant_apply valid unreserved
      canonical)).trans present) soon early
  rw [isEmpty_descendant_lay valid canonical unreserved split early,
    List.filterMap_append, List.filterMap_eq_nil_iff.mpr unseen,
    List.append_nil] at shown
  exact shown

end

/-- Made in the order of their paths, the writes of an overlay give what the overlay gives exactly if
every priority lands on lasting data. -/
theorem lay_writes_equiv_iff
    {nodes : Overlay} (valid : nodes.Valid)
    (writable : ∀ write ∈ nodes.writes, write.1.Writable)
    {data : Node} (canonical : data.Canonical) :
    data.lay nodes.writes ≈ nodes.apply data ↔ nodes.Lands data := by
  have agrees_iff {base : Path} (unreserved : base.Unreserved) :=
    (priority?_agrees_iff_restrict valid canonical unreserved).trans
      (priority?_agrees_iff (valid.restrict base)
        (writable_restrict valid writable base) (canonical.descendant base))
  rw [Node.equiv_iff_dataEq (canonical.lay valid.canonical)
    (valid.apply canonical)]
  constructor
  · rintro ⟨_, agrees⟩ before after base value split isPriority present soon
      early
    have unreserved : base.Unreserved :=
      (writable (base ++ [.priority], value) (by simp [split])).upper
        (List.cons_ne_nil _ _)
    have seenSplit : (nodes.restrict base).writes =
        before.filterMap (seenFrom base) ++
          ([.priority], value) :: after.filterMap (seenFrom base) := by
      rw [writes_restrict valid, split, List.filterMap_append,
        List.filterMap_cons_some (seenFrom_below base [.priority] value)]
    rw [isEmpty_descendant_lay valid canonical unreserved split early]
    refine (agrees_iff unreserved).mp (agrees base unreserved) _ _ value
      seenSplit isPriority ?_ _ (early.filterMap _)
    rw [← Node.isEmpty_congr (descendant_apply valid unreserved canonical)]
    exact present
  · intro lands
    exact ⟨dataEq_lay_writes valid canonical, fun base unreserved =>
      (agrees_iff unreserved).mpr
        (lands.restrict valid canonical unreserved)⟩

end Overlay

end Replica
