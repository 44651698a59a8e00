import Mathlib.Data.List.Perm.Basic
import Replica.Proofs.Overlay.Landing
import Replica.Proofs.Pending.Below

/-!
# Writes in any order

The order in which an overlay lays its writes is that of the paths, and does not matter. Writes at
locations apart from one another commute as far as the data go, also where they share ancestors
that are leaves, missing or emptied. With priorities they commute if they delete nothing and the
priorities come last.
-/

namespace Replica

/-! ## Locations apart -/

namespace Path

/-- Locations neither of which is at or above the other one. -/
structure Apart (left right : Path) : Prop where
  notAbove : contains left right = false
  notBelow : contains right left = false

theorem Apart.symm {left right : Path} (apart : Apart left right) :
    Apart right left :=
  ⟨apart.notBelow, apart.notAbove⟩

private theorem Apart.ne_nil {left right : Path} (apart : Apart left right) :
    left ≠ [] := by
  rintro rfl
  cases apart.notAbove

private theorem Apart.below
    {base left right : Path} (apart : Apart (base ++ left) (base ++ right)) :
    Apart left right := by
  obtain ⟨notAbove, notBelow⟩ := apart
  rw [contains_append_append] at notAbove notBelow
  exact ⟨notAbove, notBelow⟩

end Path

namespace Overlay

/-- Of two writes apart from one another, a location that sees both lies above the one, and by
symmetry above the other one. -/
theorem located_of_seenFrom
    {base : Path} {first second seen other : Path × Node}
    (apart : Path.Apart first.1 second.1)
    (isSeen : seenFrom base first = some seen)
    (otherSeen : seenFrom base second = some other) :
    first = (base ++ seen.1, seen.2) := by
  rcases seenFrom_cases isSeen with ⟨_, above⟩ | located
  · exfalso
    rcases seenFrom_cases otherSeen with ⟨_, otherAbove⟩ | rfl
    · rcases Path.contains_or_contains above otherAbove with upper | lower
      · rw [apart.notAbove] at upper
        cases upper
      · rw [apart.notBelow] at lower
        cases lower
    · have upper := Path.contains_trans above (Path.contains_append base other.1)
      rw [apart.notAbove] at upper
      cases upper
  · exact located

end Overlay

namespace Node

/-! ## Two writes -/

section

variable {node : Node} (canonical : node.Canonical)
  {first second : Path × Node} (firstCanonical : first.2.Canonical)
  (secondCanonical : second.2.Canonical)
  (apart : Path.Apart first.1 second.1)

include canonical firstCanonical secondCanonical apart

/-- From a location, two writes look the same in either order, or both lie below it and it sees
what they give there. -/
theorem descendant_lay_swap {base : Path} (unreserved : base.Unreserved) :
    (node.lay [first, second]).descendant base ≈
        (node.lay [second, first]).descendant base ∨
      ∃ seen other : Path × Node,
        first = (base ++ seen.1, seen.2) ∧
          second = (base ++ other.1, other.2) ∧
          (node.lay [first, second]).descendant base ≈
            (node.descendant base).lay [seen, other] ∧
          (node.lay [second, first]).descendant base ≈
            (node.descendant base).lay [other, seen] := by
  have shown :=
    @descendant_lay node canonical base unreserved [first, second]
      (by simp [firstCanonical, secondCanonical])
  have swapped :=
    @descendant_lay node canonical base unreserved [second, first]
      (by simp [firstCanonical, secondCanonical])
  cases isSeen : Overlay.seenFrom base first with
  | none =>
      simp only [List.filterMap_cons, isSeen] at shown swapped
      exact .inl (Setoid.trans shown (Setoid.symm swapped))
  | some seen =>
      cases otherSeen : Overlay.seenFrom base second with
      | none =>
          simp only [List.filterMap_cons, isSeen, otherSeen] at shown swapped
          exact .inl (Setoid.trans shown (Setoid.symm swapped))
      | some other =>
          simp only [List.filterMap_cons, List.filterMap_nil, isSeen,
            otherSeen] at shown swapped
          exact .inr ⟨seen, other,
            Overlay.located_of_seenFrom apart isSeen otherSeen,
            Overlay.located_of_seenFrom apart.symm otherSeen isSeen,
            shown, swapped⟩

end

/-- Data below a node make a branch of it, and a deletion there leaves a leaf alone. -/
theorem value?_setDescendant
    {node replacement : Node} (canonical : node.Canonical)
    (replacementCanonical : replacement.Canonical)
    {path : Path} (unreserved : path.Unreserved) (proper : path ≠ []) :
    (node.setDescendant path replacement).value? =
      if replacement.isEmpty then node.value? else none := by
  cases present : replacement.isEmpty with
  | false =>
      exact (setDescendant_of_present canonical replacementCanonical
        unreserved proper present).1
  | true =>
      rw [replacementCanonical.eq_empty present, if_pos rfl]
      cases leaf : node.isLeaf with
      | true =>
          rw [setDescendant_leaf leaf (unreserved.inChild proper)
            fun _ => rfl]
      | false => exact value?_setDescendant_of_branch proper leaf empty

private theorem value?_lay_swap
    {node : Node} (canonical : node.Canonical)
    {first second : Path × Node} (firstCanonical : first.2.Canonical)
    (secondCanonical : second.2.Canonical)
    (firstUnreserved : first.1.Unreserved) (firstProper : first.1 ≠ [])
    (secondUnreserved : second.1.Unreserved) (secondProper : second.1 ≠ []) :
    (node.lay [first, second]).value? = (node.lay [second, first]).value? := by
  simp only [lay_cons, lay_nil]
  rw [value?_setDescendant (canonical.setDescendant firstCanonical first.1)
      secondCanonical secondUnreserved secondProper,
    value?_setDescendant canonical firstCanonical firstUnreserved firstProper,
    value?_setDescendant (canonical.setDescendant secondCanonical second.1)
      firstCanonical firstUnreserved firstProper,
    value?_setDescendant canonical secondCanonical secondUnreserved
      secondProper]
  split
  · rfl
  · exact (ite_self none).symm

/-- Writes of data at locations apart from one another commute, as far as the data go. -/
theorem dataEq_lay_swap
    {node : Node} (canonical : node.Canonical)
    {first second : Path × Node} (firstCanonical : first.2.Canonical)
    (secondCanonical : second.2.Canonical)
    (apart : Path.Apart first.1 second.1)
    (firstUnreserved : first.1.Unreserved)
    (secondUnreserved : second.1.Unreserved) :
    (node.lay [first, second]).dataEq (node.lay [second, first]) = true := by
  -- One step down, a child sees both writes, or it does not see that they were swapped.
  obtain ⟨path, replacement⟩ := first
  induction path generalizing node second with
  | nil => exact absurd rfl apart.ne_nil
  | cons key rest inductionHypothesis =>
      have inOrder :=
        @Canonical.lay node canonical [(key :: rest, replacement), second]
          (by simp [firstCanonical, secondCanonical])
      have swapped :=
        @Canonical.lay node canonical [second, (key :: rest, replacement)]
          (by simp [firstCanonical, secondCanonical])
      refine dataEq_of_children inOrder swapped ?_ fun other unreserved => ?_
      · rw [value?_lay_swap canonical firstCanonical secondCanonical
          firstUnreserved apart.ne_nil secondUnreserved apart.symm.ne_nil]
        exact value?_congr (Setoid.refl _)
      · rcases descendant_lay_swap canonical firstCanonical secondCanonical
            apart (Path.unreserved_singleton unreserved) with
          unchanged | ⟨seen, seenSecond, located, rfl, inOrder, swapped⟩
        · exact dataEq_of_equiv unchanged
        · obtain ⟨samePath, rfl⟩ := Prod.ext_iff.mp located
          obtain ⟨rfl, rfl⟩ := List.cons.inj samePath
          refine dataEq_trans (dataEq_of_equiv inOrder) (dataEq_trans ?_
            (dataEq_of_equiv (Setoid.symm swapped)))
          exact inductionHypothesis (canonical.child key) secondCanonical
            secondUnreserved.tail firstCanonical
            (@Path.Apart.below [key] _ _ apart) firstUnreserved.tail

/-- Writes that hold the same data in either order are the same if a location that sees both sees
the same priority in either order. -/
theorem lay_swap_of_priority
    {node : Node} (canonical : node.Canonical)
    {first second : Path × Node} (firstCanonical : first.2.Canonical)
    (secondCanonical : second.2.Canonical)
    (apart : Path.Apart first.1 second.1)
    (sameData :
      (node.lay [first, second]).dataEq (node.lay [second, first]) = true)
    (samePriority : ∀ base : Path, base.Unreserved →
      ∀ seen other : Path × Node,
        first = (base ++ seen.1, seen.2) →
          second = (base ++ other.1, other.2) →
            Priority.orderOptional
              ((node.descendant base).lay [seen, other]).priority?
              ((node.descendant base).lay [other, seen]).priority? = .eq) :
    node.lay [first, second] ≈ node.lay [second, first] := by
  have inOrder :=
    @Canonical.lay node canonical [first, second]
      (by simp [firstCanonical, secondCanonical])
  have swapped :=
    @Canonical.lay node canonical [second, first]
      (by simp [firstCanonical, secondCanonical])
  refine (equiv_iff_dataEq inOrder swapped).mpr
    ⟨sameData, fun base unreserved => ?_⟩
  rcases descendant_lay_swap canonical firstCanonical secondCanonical apart
      unreserved with
    unchanged | ⟨seen, other, located, otherLocated, shown, shownSwapped⟩
  · exact priority?_congr unchanged
  · refine Priority.orderOptional_trans (priority?_congr shown)
      (Priority.orderOptional_trans ?_
        (priority?_congr (Setoid.symm shownSwapped)))
    exact samePriority base unreserved seen other located otherLocated

/-- A write leaves the priority of the node itself alone. -/
def Spares (write : Path × Node) : Prop :=
  ∀ node : Node, node.Canonical →
    (node.setDescendant write.1 write.2).priority? = node.priority?

private theorem spares_of_fills
    {write : Path × Node} (canonical : write.2.Canonical)
    (fills : Overlay.Fills write) (proper : write.1 ≠ []) : Spares write :=
  fun _ nodeCanonical =>
    (setDescendant_of_present nodeCanonical canonical fills.1 proper
      (fills.2 proper)).2

private theorem spares_of_priority
    {write : Path × Node} (canonical : write.2.Canonical)
    (priority : Overlay.isPriorityPath write.1 = true)
    (inChild : write.1.InChild) : Spares write :=
  fun _ nodeCanonical =>
    priority?_setDescendant_of_priority nodeCanonical inChild priority
      canonical

private theorem priority?_lay_swap_of_spares
    {node : Node} (canonical : node.Canonical)
    {first second : Path × Node} (firstCanonical : first.2.Canonical)
    (secondCanonical : second.2.Canonical)
    (firstSpares : Spares first) (secondSpares : Spares second) :
    (node.lay [first, second]).priority? =
      (node.lay [second, first]).priority? := by
  simp only [lay_cons, lay_nil]
  rw [secondSpares _ (canonical.setDescendant firstCanonical _),
    firstSpares _ (canonical.setDescendant secondCanonical _),
    firstSpares _ canonical, secondSpares _ canonical]

/-- The priority of a node commutes with priorities further down. -/
theorem priority?_lay_swap_of_here
    {node : Node} (canonical : node.Canonical) (value : Node)
    {below : Path × Node} (inChild : below.1.InChild)
    (priority : Overlay.isPriorityPath below.1 = true)
    (belowCanonical : below.2.Canonical) :
    Priority.orderOptional
      (node.lay [([.priority], value), below]).priority?
      (node.lay [below, ([.priority], value)]).priority? = .eq := by
  have reserved : Key.priority.isPriority = true := rfl
  have sameData :=
    dataEq_setDescendant_priority canonical priority belowCanonical
  have before :=
    priority?_setPriority canonical (value.value?.bind Priority.ofScalar?)
  have after :=
    priority?_setPriority (canonical.setDescendant belowCanonical below.1)
      (value.value?.bind Priority.ofScalar?)
  rw [isEmpty_of_dataEq sameData] at after
  simp only [lay_cons, lay_nil, setDescendant_cons_of_priority reserved]
  rw [priority?_setDescendant_of_priority (canonical.setPriority _) inChild
    priority belowCanonical]
  exact Priority.orderOptional_trans before
    (Priority.orderOptional_symm after)

private theorem priority?_lay_swap_of_priorities
    {node : Node} (canonical : node.Canonical)
    {first second : Path × Node} (firstCanonical : first.2.Canonical)
    (secondCanonical : second.2.Canonical)
    (apart : Path.Apart first.1 second.1)
    (firstWritable : first.1.Writable) (secondWritable : second.1.Writable)
    (firstPriority : Overlay.isPriorityPath first.1 = true)
    (secondPriority : Overlay.isPriorityPath second.1 = true) :
    Priority.orderOptional (node.lay [first, second]).priority?
      (node.lay [second, first]).priority? = .eq := by
  by_cases firstHere : first.1 = [.priority]
  · have secondInChild :=
      secondWritable.inChild apart.symm.ne_nil fun secondHere =>
        Path.ne_of_not_contains apart.notAbove
          (firstHere.trans secondHere.symm)
    obtain ⟨path, value⟩ := first
    obtain rfl : path = [.priority] := firstHere
    exact priority?_lay_swap_of_here canonical value secondInChild
      secondPriority secondCanonical
  have firstInChild := firstWritable.inChild apart.ne_nil firstHere
  by_cases secondHere : second.1 = [.priority]
  · obtain ⟨path, value⟩ := second
    obtain rfl : path = [.priority] := secondHere
    exact Priority.orderOptional_symm
      (priority?_lay_swap_of_here canonical value firstInChild firstPriority
        firstCanonical)
  · have secondInChild :=
      secondWritable.inChild apart.symm.ne_nil secondHere
    rw [priority?_lay_swap_of_spares canonical firstCanonical secondCanonical
      (spares_of_priority firstCanonical firstPriority firstInChild)
      (spares_of_priority secondCanonical secondPriority secondInChild)]
    exact Priority.orderOptional_self _

/-- Writes that put data in place commute, priorities included. -/
theorem lay_swap_of_fills
    {node : Node} (canonical : node.Canonical)
    {first second : Path × Node} (firstCanonical : first.2.Canonical)
    (secondCanonical : second.2.Canonical)
    (apart : Path.Apart first.1 second.1)
    (firstFills : Overlay.Fills first) (secondFills : Overlay.Fills second) :
    node.lay [first, second] ≈ node.lay [second, first] := by
  refine lay_swap_of_priority canonical firstCanonical secondCanonical apart
    (dataEq_lay_swap canonical firstCanonical secondCanonical apart
      firstFills.1 secondFills.1) fun base _ seen other located
      otherLocated => ?_
  subst located otherLocated
  have seenCanonical : seen.2.Canonical := firstCanonical
  have otherCanonical : other.2.Canonical := secondCanonical
  have seenFills := firstFills.seenFrom (Overlay.seenFrom_below base _ _)
  have otherFills := secondFills.seenFrom (Overlay.seenFrom_below base _ _)
  have below := apart.below
  rw [priority?_lay_swap_of_spares (canonical.descendant base) seenCanonical
    otherCanonical (spares_of_fills seenCanonical seenFills below.ne_nil)
    (spares_of_fills otherCanonical otherFills below.symm.ne_nil)]
  exact Priority.orderOptional_self _

private theorem dataEq_lay_of_priorities
    {node : Node} (canonical : node.Canonical)
    {writes : List (Path × Node)}
    (writesCanonical : ∀ write ∈ writes, write.2.Canonical)
    (priorities : ∀ write ∈ writes,
      Overlay.isPriorityPath write.1 = true) :
    (node.lay writes).dataEq node = true := by
  have given := dataEq_lay_filter (dataEq_refl node) canonical canonical
    writesCanonical
  rw [List.filter_eq_nil_iff.mpr fun write member => by
    simp [priorities write member]] at given
  exact given

/-- Priorities commute. -/
theorem lay_swap_of_priorities
    {node : Node} (canonical : node.Canonical)
    {first second : Path × Node} (firstCanonical : first.2.Canonical)
    (secondCanonical : second.2.Canonical)
    (apart : Path.Apart first.1 second.1)
    (firstWritable : first.1.Writable) (secondWritable : second.1.Writable)
    (firstPriority : Overlay.isPriorityPath first.1 = true)
    (secondPriority : Overlay.isPriorityPath second.1 = true) :
    node.lay [first, second] ≈ node.lay [second, first] := by
  have sameData :
      (node.lay [first, second]).dataEq (node.lay [second, first]) = true := by
    refine dataEq_trans (dataEq_lay_of_priorities canonical ?_ ?_)
      (dataEq_symm (dataEq_lay_of_priorities canonical ?_ ?_)) <;>
      simp [firstCanonical, secondCanonical, firstPriority, secondPriority]
  refine lay_swap_of_priority canonical firstCanonical secondCanonical apart
    sameData fun base unreserved seen other located otherLocated => ?_
  subst located otherLocated
  have seenFirst :=
    Overlay.isPriorityPath_of_seenFrom unreserved
      (Overlay.seenFrom_below base seen.1 seen.2)
  have seenSecond :=
    Overlay.isPriorityPath_of_seenFrom unreserved
      (Overlay.seenFrom_below base other.1 other.2)
  exact priority?_lay_swap_of_priorities (canonical.descendant base)
    firstCanonical secondCanonical apart.below firstWritable.lower
    secondWritable.lower (seenFirst.trans firstPriority)
    (seenSecond.trans secondPriority)

/-! ## Any number of writes -/

/-- Writes that commute two by two give the same in any order. -/
theorem lay_of_perm
    {related : Node → Node → Prop} (equivalence : Equivalence related)
    (congr : ∀ {left right : Node}, related left right →
      left.Canonical → right.Canonical →
        ∀ {writes : List (Path × Node)},
          (∀ write ∈ writes, write.2.Canonical) →
            related (left.lay writes) (right.lay writes))
    {writes others : List (Path × Node)} (perm : writes.Perm others)
    (writesCanonical : ∀ write ∈ writes, write.2.Canonical)
    (commute : ∀ first ∈ writes, ∀ second ∈ writes, first ≠ second →
      ∀ node : Node, node.Canonical →
        related (node.lay [first, second]) (node.lay [second, first]))
    {node : Node} (canonical : node.Canonical) :
    related (node.lay writes) (node.lay others) := by
  induction perm generalizing node with
  | nil => exact equivalence.refl node
  | cons write _ inductionHypothesis =>
      obtain ⟨first, rest⟩ := List.forall_mem_cons.mp writesCanonical
      refine inductionHypothesis rest (fun first member second
        otherMember => ?_) (canonical.setDescendant first write.1)
      exact commute first (List.mem_cons_of_mem write member) second
        (List.mem_cons_of_mem write otherMember)
  | swap second first rest =>
      obtain ⟨firstCanonical, others⟩ :=
        List.forall_mem_cons.mp writesCanonical
      obtain ⟨secondCanonical, restCanonical⟩ :=
        List.forall_mem_cons.mp others
      by_cases same : first = second
      · rw [same]
        exact equivalence.refl _
      · have swapped :=
          commute first List.mem_cons_self second
            (List.mem_cons_of_mem first List.mem_cons_self) same node
            canonical
        exact congr swapped (canonical.lay (by
          simp [firstCanonical, secondCanonical])) (canonical.lay (by
          simp [firstCanonical, secondCanonical])) restCanonical
  | trans first _ firstHypothesis secondHypothesis =>
      refine equivalence.trans
        (firstHypothesis writesCanonical commute canonical)
        (secondHypothesis ?_ ?_ canonical)
      · intro write member
        exact writesCanonical write (first.mem_iff.mpr member)
      · intro write member other otherMember
        exact commute write (first.mem_iff.mpr member) other
          (first.mem_iff.mpr otherMember)

section

variable {node : Node} (canonical : node.Canonical)
  {writes others : List (Path × Node)} (perm : writes.Perm others)
  (writesCanonical : ∀ write ∈ writes, write.2.Canonical)
  (apart : ∀ first ∈ writes, ∀ second ∈ writes, first ≠ second →
    Path.Apart first.1 second.1)

include canonical perm writesCanonical apart

private theorem dataEq_lay_of_perm
    (unreserved : ∀ write ∈ writes, write.1.Unreserved) :
    (node.lay writes).dataEq (node.lay others) = true := by
  refine @lay_of_perm (fun left right => left.dataEq right = true)
    ⟨dataEq_refl, dataEq_symm, dataEq_trans⟩ dataEq_lay _ _ perm
    writesCanonical ?_ _ canonical
  intro first member second otherMember different data dataCanonical
  exact dataEq_lay_swap dataCanonical (writesCanonical first member)
    (writesCanonical second otherMember)
    (apart first member second otherMember different)
    (unreserved first member) (unreserved second otherMember)

private theorem lay_of_perm_of_fills
    (fills : ∀ write ∈ writes, Overlay.Fills write) :
    node.lay writes ≈ node.lay others := by
  refine lay_of_perm Setoid.iseqv lay_congr_left perm writesCanonical ?_
    canonical
  intro first member second otherMember different data dataCanonical
  exact lay_swap_of_fills dataCanonical (writesCanonical first member)
    (writesCanonical second otherMember)
    (apart first member second otherMember different) (fills first member)
    (fills second otherMember)

private theorem lay_of_perm_of_priorities
    (writable : ∀ write ∈ writes, write.1.Writable)
    (priorities : ∀ write ∈ writes,
      Overlay.isPriorityPath write.1 = true) :
    node.lay writes ≈ node.lay others := by
  refine lay_of_perm Setoid.iseqv lay_congr_left perm writesCanonical ?_
    canonical
  intro first member second otherMember different data dataCanonical
  exact lay_swap_of_priorities dataCanonical (writesCanonical first member)
    (writesCanonical second otherMember)
    (apart first member second otherMember different)
    (writable first member) (writable second otherMember)
    (priorities first member) (priorities second otherMember)

end

end Node

namespace Overlay

/-- The priorities come after the data. -/
def PrioritiesLast (writes : List (Path × Node)) : Prop :=
  writes.Pairwise fun earlier later =>
    isPriorityPath earlier.1 = true → isPriorityPath later.1 = true

private theorem PrioritiesLast.split
    {writes : List (Path × Node)} (last : PrioritiesLast writes) :
    writes.filter (fun write => !isPriorityPath write.1) ++
        writes.filter (fun write => isPriorityPath write.1) = writes := by
  induction writes with
  | nil => rfl
  | cons write rest inductionHypothesis =>
      obtain ⟨later, others⟩ := List.pairwise_cons.mp last
      cases priority : isPriorityPath write.1 with
      | true =>
          have all := fun other member => later other member priority
          rw [List.filter_eq_nil_iff.mpr fun other member => ?_,
            List.filter_eq_self.mpr fun other member => ?_, List.nil_append]
          · rcases List.mem_cons.mp member with rfl | isLater
            · exact priority
            · exact all other isLater
          · rcases List.mem_cons.mp member with rfl | isLater
            · simp [priority]
            · simp [all other isLater]
      | false =>
          rw [List.filter_cons_of_pos (by simp [priority]),
            List.filter_cons_of_neg (by simp [priority]), List.cons_append,
            inductionHypothesis others]

private theorem Valid.apart_of_ne
    {overlay : Overlay} (valid : overlay.Valid)
    {first second : Path × Node} (member : first ∈ overlay.writes)
    (otherMember : second ∈ overlay.writes) (different : first ≠ second) :
    Path.Apart first.1 second.1 := by
  constructor
  · rw [Bool.eq_false_iff]
    exact fun contained =>
      different (valid.eq_of_contains member otherMember contained)
  · rw [Bool.eq_false_iff]
    exact fun contained =>
      different (valid.eq_of_contains otherMember member contained).symm

private theorem Valid.canonical_of_mem_filter
    {overlay : Overlay} (valid : overlay.Valid)
    {order : List (Path × Node)} (perm : order.Perm overlay.writes)
    (keep : Path × Node → Bool) :
    ∀ write ∈ order.filter keep, write.2.Canonical := by
  intro write member
  have isWrite := perm.mem_iff.mp (List.mem_filter.mp member).1
  exact valid.canonical write isWrite

private theorem Valid.apart_of_mem_filter
    {overlay : Overlay} (valid : overlay.Valid)
    (keep : Path × Node → Bool) :
    ∀ first ∈ overlay.writes.filter keep,
      ∀ second ∈ overlay.writes.filter keep, first ≠ second →
        Path.Apart first.1 second.1 := by
  intro first member second otherMember
  exact valid.apart_of_ne (List.mem_filter.mp member).1
    (List.mem_filter.mp otherMember).1

/-- The writes of data in an overlay leave the priorities alone. -/
theorem unreserved_of_mem_filter
    {overlay : Overlay}
    (writable : ∀ write ∈ overlay.writes, write.1.Writable) :
    ∀ write ∈ overlay.writes.filter fun write => !isPriorityPath write.1,
      write.1.Unreserved := by
  intro write member
  obtain ⟨isWrite, isData⟩ := List.mem_filter.mp member
  exact (writable write isWrite).unreserved (by simpa using isData)

section

variable {overlay : Overlay} (valid : overlay.Valid)
  (writable : ∀ write ∈ overlay.writes, write.1.Writable)
  {node : Node} (canonical : node.Canonical)
  {order : List (Path × Node)} (perm : order.Perm overlay.writes)

include valid writable canonical perm

/-- In any order, the writes give the data that the overlay gives. -/
theorem dataEq_apply_of_perm :
    (node.lay order).dataEq (overlay.apply node) = true := by
  have inOrder :=
    Node.dataEq_lay_filter (Node.dataEq_refl node) canonical canonical
      fun write member => valid.canonical write (perm.mem_iff.mp member)
  have data :=
    Node.dataEq_lay_of_perm canonical
      (perm.symm.filter fun write => !isPriorityPath write.1)
      (valid.canonical_of_mem_filter (.refl _) _)
      (valid.apart_of_mem_filter _) (unreserved_of_mem_filter writable)
  have writes :=
    Node.dataEq_lay_filter (Node.dataEq_refl node) canonical canonical
      valid.canonical
  have reordered :=
    Node.dataEq_trans inOrder
      (Node.dataEq_symm (Node.dataEq_trans writes data))
  exact Node.dataEq_trans reordered (dataEq_lay_writes valid canonical)

/-- With the priorities last, writes that delete no data give what the overlay gives. -/
theorem apply_of_perm
    (last : PrioritiesLast order)
    (present : ∀ write ∈ overlay.writes, isPriorityPath write.1 = false →
      write.2.isEmpty = false) :
    node.lay order ≈ overlay.apply node := by
  have writesCanonical := valid.canonical_of_mem_filter (.refl _)
  have orderCanonical := valid.canonical_of_mem_filter perm
  have fills : ∀ write ∈
      overlay.writes.filter fun write => !isPriorityPath write.1,
        Fills write := by
    intro write member
    refine ⟨unreserved_of_mem_filter writable write member, fun _ => ?_⟩
    obtain ⟨isWrite, isData⟩ := List.mem_filter.mp member
    exact present write isWrite (by simpa using isData)
  have data :=
    Node.lay_of_perm_of_fills canonical
      (perm.symm.filter fun write => !isPriorityPath write.1)
      (writesCanonical _) (valid.apart_of_mem_filter _) fills
  have dataLaid :=
    canonical.lay (writesCanonical fun write => !isPriorityPath write.1)
  have priorities :=
    Node.lay_of_perm_of_priorities dataLaid
      (perm.symm.filter fun write => isPriorityPath write.1)
      (writesCanonical _) (valid.apart_of_mem_filter _)
      (fun write member => writable write (List.mem_filter.mp member).1)
      fun write member => (List.mem_filter.mp member).2
  rw [← last.split, apply_eq_lay, laid, Node.lay_append, Node.lay_append]
  exact Setoid.trans
    (Node.lay_congr_left (Setoid.symm data)
      (canonical.lay (orderCanonical _)) dataLaid (orderCanonical _))
    (Setoid.symm priorities)

end

/-- Whatever the order of its writes, an overlay gives the same data. As long as the priorities
come last and no data are deleted, it gives the same priorities too. -/
theorem apply_in_any_order
    {overlay : Overlay} (built : overlay.Built)
    (writable : ∀ write ∈ overlay.writes, write.1.Writable)
    {node : Node} (canonical : node.Canonical)
    {order : List (Path × Node)} (perm : order.Perm overlay.writes)
    (last : PrioritiesLast order) :
    (node.lay order).dataEq (overlay.apply node) = true ∧
      ((∀ write ∈ overlay.writes, isPriorityPath write.1 = false →
          write.2.isEmpty = false) →
        (node.lay order).same (overlay.apply node) = true) :=
  ⟨dataEq_apply_of_perm built.valid writable canonical perm,
    apply_of_perm built.valid writable canonical perm last⟩

/-- A deletion that empties a node takes its priority along, unless other data are there first. -/
example :
    let node := Node.branch
      [(⟨"a"⟩, .branch [(⟨"x"⟩, .ofScalar (.bool true))] (some (.text "p")))]
      none
    let deletion : Path × Node := ([⟨"a"⟩, ⟨"x"⟩], .empty)
    let sibling : Path × Node := ([⟨"a"⟩, ⟨"y"⟩], .ofScalar (.bool true))
    (node.lay [deletion, sibling]).dataEq (node.lay [sibling, deletion]) =
        true ∧
      (node.lay [deletion, sibling]).same (node.lay [sibling, deletion]) =
        false := by
  decide

/-- Writes at sibling locations below a leaf, one of them its priority, and further down where
there is nothing yet. -/
def siblingsBelowLeaf : Overlay :=
  .ofWrites
    [([⟨"a"⟩, .priority], .ofScalar (.text "p")),
      ([⟨"a"⟩, ⟨"x"⟩], .ofScalar (.bool true)),
      ([⟨"b"⟩, ⟨"y"⟩, ⟨"z"⟩], .ofScalar (.bool false)),
      ([⟨"a"⟩, ⟨"2"⟩], .leaf (.bool false) (some (.text "q")))]

theorem apply_in_any_order_siblings :
    let node := Node.branch
      [(⟨"a"⟩, .leaf (.bool false) (some (.text "o")))] none
    let order : List (Path × Node) :=
      [([⟨"a"⟩, ⟨"x"⟩], .ofScalar (.bool true)),
        ([⟨"b"⟩, ⟨"y"⟩, ⟨"z"⟩], .ofScalar (.bool false)),
        ([⟨"a"⟩, ⟨"2"⟩], .leaf (.bool false) (some (.text "q"))),
        ([⟨"a"⟩, .priority], .ofScalar (.text "p"))]
    order.Perm siblingsBelowLeaf.writes ∧ PrioritiesLast order ∧
      (node.lay order).dataEq (siblingsBelowLeaf.apply node) = true ∧
        (node.lay order).same (siblingsBelowLeaf.apply node) = true := by
  intro node order
  have built : siblingsBelowLeaf.Built := .ofWrites (by
    simp [Node.Canonical.ofScalar, Node.Canonical.leaf])
  have writes : siblingsBelowLeaf.writes =
      [([⟨"a"⟩, ⟨"2"⟩], .leaf (.bool false) (some (.text "q"))),
        ([⟨"a"⟩, .priority], .ofScalar (.text "p")),
        ([⟨"a"⟩, ⟨"x"⟩], .ofScalar (.bool true)),
        ([⟨"b"⟩, ⟨"y"⟩, ⟨"z"⟩], .ofScalar (.bool false))] :=
    rfl
  have perm : order.Perm siblingsBelowLeaf.writes := by
    rw [writes]
    exact @List.perm_append_comm _ (order.take 2) (order.drop 2)
  have last : PrioritiesLast order := by
    simp [PrioritiesLast, order, isPriorityPath, Key.isPriority,
      Key.priority]
  have writable : ∀ write ∈ siblingsBelowLeaf.writes, write.1.Writable := by
    simp [writes, Path.Writable, Path.Unreserved, Key.isPriority,
      Key.priority]
  have present : ∀ write ∈ siblingsBelowLeaf.writes,
      isPriorityPath write.1 = false → write.2.isEmpty = false := by
    rw [writes]
    decide
  have canonical : node.Canonical :=
    Node.Canonical.empty.setDescendant (Node.Canonical.leaf _ _) [⟨"a"⟩]
  obtain ⟨sameData, same⟩ :=
    apply_in_any_order built writable canonical perm last
  exact ⟨perm, last, sameData, same present⟩

end Overlay

end Replica
