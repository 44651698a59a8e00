import Mathlib.Data.List.Induction
import Replica.Proofs.Overlay.LeafTurn

/-!
# Folding writes and making them again

An overlay folds each write into those before it. Laid over data it is to give what the writes
give when they are made again, one after the other. It does so for writes that put data in place
below the location they are seen from: a deletion may empty what surrounds it, and a priority goes
lost where there is no data yet.
-/

namespace Replica

namespace Node

/-! ## Data put in place -/

private theorem isEmpty_setDescendant
    {node replacement : Node} (canonical : node.Canonical)
    (replacementCanonical : replacement.Canonical)
    {path : Path} (unreserved : path.Unreserved)
    (present : replacement.isEmpty = false) :
    (node.setDescendant path replacement).isEmpty = false := by
  have placed :=
    descendant_setDescendant_above canonical replacementCanonical
      unreserved []
  rw [List.append_nil] at placed
  rw [Bool.eq_false_iff]
  intro noData
  have nothing :=
    (canonical.setDescendant replacementCanonical path).eq_empty noData
  rw [nothing, descendant_empty] at placed
  have noReplacement := isEmpty_congr placed
  change true = replacement.isEmpty at noReplacement
  rw [present] at noReplacement
  cases noReplacement

/-- Data below a child makes a branch of the node and leaves its priority alone. -/
theorem setDescendant_of_present
    {node replacement : Node} (canonical : node.Canonical)
    (replacementCanonical : replacement.Canonical)
    {path : Path} (unreserved : path.Unreserved) (proper : path ≠ [])
    (present : replacement.isEmpty = false) :
    (node.setDescendant path replacement).value? = none ∧
      (node.setDescendant path replacement).priority? =
        node.priority? := by
  have nonempty :=
    isEmpty_setDescendant canonical replacementCanonical unreserved present
  cases path with
  | nil => exact absurd rfl proper
  | cons key rest =>
      rw [setDescendant_cons_of_not_priority unreserved.head] at nonempty ⊢
      have childPresent :=
        isEmpty_setDescendant (canonical.child key) replacementCanonical
          unreserved.tail present
      rw [value?_setChild node _ unreserved.head, childPresent,
        priority?_setChild canonical _ unreserved.head, nonempty]
      exact ⟨rfl, rfl⟩

end Node

namespace Overlay

/-! ## Writes that put data in place -/

/-- A write addresses data, and deletes nothing below the location that it is seen from. -/
def Fills (write : Path × Node) : Prop :=
  write.1.Unreserved ∧ (write.1 ≠ [] → write.2.isEmpty = false)

theorem plain_of_unreserved
    {base : Path} (unreserved : base.Unreserved) (overlay : Overlay) :
    overlay.Plain base := by
  rintro above below _ rfl _
  exact (Path.unreserved_append_iff.mp unreserved).2

theorem unreserved_of_seenFrom
    {base : Path} {write seen : Path × Node}
    (unreserved : write.1.Unreserved)
    (isSeen : seenFrom base write = some seen) : seen.1.Unreserved := by
  rcases seenFrom_cases isSeen with ⟨atRoot, _⟩ | rfl
  · rw [atRoot]
    exact fun _ member => absurd member List.not_mem_nil
  · exact (Path.unreserved_append_iff.mp unreserved).2

theorem Fills.seenFrom
    {base : Path} {write seen : Path × Node}
    (fills : Fills write) (isSeen : seenFrom base write = some seen) :
    Fills seen := by
  refine ⟨unreserved_of_seenFrom fills.1 isSeen, fun proper => ?_⟩
  rcases seenFrom_cases isSeen with ⟨atRoot, _⟩ | rfl
  · exact absurd atRoot proper
  · exact fills.2 (List.append_ne_nil_of_right_ne_nil base proper)

private theorem fills_restrict
    {overlay : Overlay} (valid : overlay.Valid)
    (fills : ∀ entry ∈ overlay.writes, Fills entry) (base : Path) :
    ∀ entry ∈ (overlay.restrict base).writes, Fills entry := by
  intro entry member
  rw [writes_restrict valid] at member
  obtain ⟨write, writeMember, isSeen⟩ := List.mem_filterMap.mp member
  exact (fills write writeMember).seenFrom isSeen

private theorem fills_add
    {overlay : Overlay} (valid : overlay.Valid)
    (fills : ∀ entry ∈ overlay.writes, Fills entry)
    {path : Path} {node : Node} (canonical : node.Canonical)
    (filling : Fills (path, node)) :
    ∀ entry ∈ (overlay.add path node).writes, Fills entry := by
  intro entry member
  rcases covering?_cases valid path with
    ⟨above, below, existing, rfl, stored, covered⟩ | uncovered
  · rw [writes_add_of_covered covered] at member
    rcases Sorted.mem_of_mem_insert member with rfl | old
    · have storedMember := Sorted.mem_of_find?_eq_some stored
      refine ⟨(fills _ storedMember).1, fun proper => ?_⟩
      exact Node.isEmpty_setDescendant (valid.canonical _ storedMember)
        canonical (Path.unreserved_append_iff.mp filling.1).2
        (filling.2 (List.append_ne_nil_of_left_ne_nil proper below))
    · exact fills entry old
  · rw [writes_add_of_open uncovered] at member
    rcases Sorted.mem_of_mem_insert member with rfl | old
    · exact filling
    · exact fills entry (List.mem_filter.mp old).1

/-- Under an open root, such writes leave the priority alone, and the value if there are none. -/
theorem apply_of_fills
    {overlay : Overlay} (valid : overlay.Valid)
    (uncovered : overlay.root? = none)
    (fills : ∀ entry ∈ overlay.writes, Fills entry)
    {data : Node} (canonical : data.Canonical) :
    (overlay.apply data).priority? = data.priority? ∧
      (overlay.writes ≠ [] → (overlay.apply data).value? = none) := by
  have proper := proper_of_mem_laid valid uncovered
  have laidFills : ∀ write ∈ overlay.laid, Fills write :=
    fun write member => fills write (mem_laid.mp member)
  have laidCanonical := valid.canonical_of_mem_laid
  have laid : overlay.writes ≠ [] → overlay.laid ≠ [] := by
    intro nonempty nothing
    obtain ⟨first, firstMember⟩ := List.exists_mem_of_ne_nil _ nonempty
    have isLaid := mem_laid.mpr firstMember
    rw [nothing] at isLaid
    cases isLaid
  rw [apply_eq_lay]
  refine (?_ : _ ∧ (overlay.laid ≠ [] → _)).imp_right fun said => said ∘ laid
  clear laid
  generalize overlay.laid = writes at *
  induction writes generalizing data with
  | nil => exact ⟨rfl, fun contrary => absurd rfl contrary⟩
  | cons write rest inductionHypothesis =>
      obtain ⟨firstProper, othersProper⟩ := List.forall_mem_cons.mp proper
      obtain ⟨first, others⟩ := List.forall_mem_cons.mp laidFills
      obtain ⟨firstCanonical, othersCanonical⟩ :=
        List.forall_mem_cons.mp laidCanonical
      obtain ⟨value, priority⟩ :=
        Node.setDescendant_of_present canonical firstCanonical first.1
          firstProper (first.2 firstProper)
      obtain ⟨further, branch⟩ :=
        inductionHypothesis
          (canonical.setDescendant firstCanonical write.1) othersProper
          others othersCanonical
      rw [Node.lay_cons]
      refine ⟨further.trans priority, fun _ => ?_⟩
      cases rest with
      | nil => exact value
      | cons next later => exact branch (List.cons_ne_nil next later)

/-! ## Folding and making again -/

section

variable {overlay : Overlay} (valid : overlay.Valid) {node : Node}
  (canonical : node.Canonical)

include valid

private theorem writes_add_ne_nil (path : Path) (node : Node) :
    (overlay.add path node).writes ≠ [] := by
  have covered := isSome_node?_add valid path node path
  rw [Path.contains_self, Bool.or_true, isSome_node?_iff] at covered
  obtain ⟨write, member, _⟩ := covered
  exact List.ne_nil_of_mem member

include canonical

theorem child_apply_add
    {data : Node} (dataCanonical : data.Canonical)
    {key : Key} (unreserved : key.isPriority = false) (path : Path) :
    ((overlay.add path node).apply data).child key ≈
      ((overlay.restrict [key]).adds
        (seenFrom [key] (path, node)).toList).apply (data.child key) := by
  have single := Path.unreserved_singleton unreserved
  have added := valid.add canonical path
  have restricted :=
    @restrict_add overlay valid [key] (plain_of_unreserved single overlay)
      (path, node) canonical
  have seenCanonical : ∀ seen ∈ (seenFrom [key] (path, node)).toList,
      seen.2.Canonical := fun seen member =>
    canonical_of_seenFrom canonical (Option.mem_toList.mp member)
  exact Setoid.trans (child_apply added unreserved dataCanonical)
    (apply_congr restricted (added.restrict [key])
      ((valid.restrict [key]).adds seenCanonical) (Setoid.refl _)
      (dataCanonical.child key) (dataCanonical.child key))

end

/-- Laying a write that was folded into an overlay is laying the overlay and then making the
write. -/
theorem apply_add
    {overlay : Overlay} (valid : overlay.Valid)
    (fills : ∀ entry ∈ overlay.writes, Fills entry)
    {path : Path} {node : Node} (canonical : node.Canonical)
    (filling : Fills (path, node))
    {data : Node} (dataCanonical : data.Canonical) :
    (overlay.add path node).apply data ≈
      (overlay.apply data).setDescendant path node := by
  -- One step down, the overlay is what the child sees of it, and the data are those of the child.
  induction path generalizing overlay data with
  | nil =>
      rw [apply_of_root? (valid.add canonical []) (root?_add_root valid node)]
      exact Setoid.refl _
  | cons key rest inductionHypothesis =>
      have proper : key :: rest ≠ [] := List.cons_ne_nil key rest
      have unreserved : Path.Unreserved (key :: rest) := filling.1
      have added := valid.add canonical (key :: rest)
      have applied := valid.apply dataCanonical
      have rooted := root?_add_of_proper valid proper node
      cases isRooted : overlay.root? with
      | some root =>
          rw [isRooted, Option.map_some] at rooted
          rw [apply_of_root? added rooted, apply_of_root? valid isRooted]
      | none =>
          -- Neither side has a write at the root: the writes fill the node, so it is a branch
          -- with the priority that it had, and only its children are left to compare.
          rw [isRooted, Option.map_none] at rooted
          obtain ⟨priority, value⟩ :=
            apply_of_fills added rooted
              (fills_add valid fills canonical filling) dataCanonical
          obtain ⟨oldPriority, _⟩ :=
            apply_of_fills valid isRooted fills dataCanonical
          obtain ⟨placedValue, placedPriority⟩ :=
            Node.setDescendant_of_present applied canonical unreserved
              proper (filling.2 proper)
          refine Node.equiv_of_children (added.apply dataCanonical)
            (applied.setDescendant canonical _) ?_ ?_ ?_
          · rw [value (writes_add_ne_nil valid _ node), placedValue]
            exact .none
          · rw [priority, placedPriority, oldPriority]
            exact Priority.orderOptional_self _
          · intro other otherUnreserved
            have below := child_apply valid otherUnreserved dataCanonical
            have shown :=
              child_apply_add valid canonical dataCanonical otherUnreserved
                (key :: rest)
            refine Setoid.trans shown ?_
            rw [Node.setDescendant_cons_of_not_priority unreserved.head]
            by_cases here : other = key
            · subst here
              have seen : seenFrom [other] (other :: rest, node) =
                  some (rest, node) :=
                seenFrom_below [other] rest node
              rw [seen]
              refine Setoid.trans
                (inductionHypothesis (valid.restrict [other])
                  (fills_restrict valid fills [other])
                  (filling.seenFrom seen) (dataCanonical.child other)) ?_
              refine Setoid.trans (Node.setDescendant_congr
                (Setoid.symm below) (Setoid.refl node)
                ((valid.restrict [other]).apply
                  (dataCanonical.child other))
                (applied.child other) canonical canonical rest) ?_
              exact Setoid.symm (Node.child_setChild_self applied
                ((applied.child other).setDescendant canonical rest)
                otherUnreserved)
            · have unseen : seenFrom [other] (key :: rest, node) = none :=
                seenFrom_beside node
                  (Path.contains_of_heads_ne (Ne.symm here) rest [])
                  (Path.contains_of_heads_ne here [] rest)
              rw [unseen, Node.child_setChild_of_ne applied _
                otherUnreserved here]
              exact Setoid.symm below

/-- Laying folded writes is making them one after the other. -/
theorem apply_adds
    {overlay : Overlay} (valid : overlay.Valid)
    (fills : ∀ entry ∈ overlay.writes, Fills entry)
    {writes : List (Path × Node)}
    (canonical : ∀ write ∈ writes, write.2.Canonical)
    (filling : ∀ write ∈ writes, Fills write)
    {data : Node} (dataCanonical : data.Canonical) :
    (overlay.adds writes).apply data ≈ (overlay.apply data).lay writes := by
  induction writes generalizing overlay with
  | nil => exact Setoid.refl _
  | cons write rest inductionHypothesis =>
      obtain ⟨first, others⟩ := List.forall_mem_cons.mp canonical
      obtain ⟨firstFills, othersFill⟩ := List.forall_mem_cons.mp filling
      have added := valid.add first write.1
      have further :=
        inductionHypothesis added
          (fills_add valid fills first firstFills) others othersFill
      refine Setoid.trans further ?_
      exact Node.lay_congr_left
        (apply_add valid fills first firstFills dataCanonical)
        (added.apply dataCanonical)
        ((valid.apply dataCanonical).setDescendant first write.1) others

/-- Seen from a location for data, folded writes are the writes made there one after the other. -/
theorem apply_restrict_adds
    {base : Path} (unreserved : base.Unreserved)
    {writes : List (Path × Node)}
    (canonical : ∀ write ∈ writes, write.2.Canonical)
    (filling : ∀ write ∈ writes, Fills write)
    {data : Node} (dataCanonical : data.Canonical) :
    ((empty.adds writes).restrict base).apply data ≈
      data.lay (writes.filterMap (seenFrom base)) := by
  have seenCanonical := @canonical_of_mem_filterMap base _ canonical
  have shown :=
    restrict_adds_empty canonical
      (plain_of_unreserved unreserved (empty.adds writes))
  refine Setoid.trans (apply_congr shown
    ((Valid.empty.adds canonical).restrict base)
    (Valid.empty.adds seenCanonical) (Setoid.refl _) dataCanonical
    dataCanonical) ?_
  refine apply_adds Valid.empty
    (fun _ member => absurd member List.not_mem_nil) seenCanonical ?_
    dataCanonical
  intro seen member
  obtain ⟨write, writeMember, isSeen⟩ := List.mem_filterMap.mp member
  exact (filling write writeMember).seenFrom isSeen

/-! ## Writes apart from one another -/

/-- Writes that are in order and apart from one another are not folded. -/
theorem writes_adds_of_apart
    {writes : List (Path × Node)} (ascending : Sorted.Ascending writes)
    (apart : ∀ upper ∈ writes, ∀ lower ∈ writes,
      Path.contains upper.1 lower.1 = true → upper = lower) :
    (empty.adds writes).writes = writes := by
  -- From the back: the last write meets an overlay that is the list of all writes before it.
  induction writes using List.reverseRecOn with
  | nil => rfl
  | append_singleton before last inductionHypothesis =>
      obtain ⟨path, node⟩ := last
      obtain ⟨beforeAscending, _, earlier⟩ :=
        List.pairwise_append.mp ascending
      have isBefore : ∀ write ∈ before, compare write.1 path = .lt :=
        fun write member => earlier write member _ (List.mem_singleton_self _)
      have folded :=
        inductionHypothesis beforeAscending fun upper upperMember lower
          lowerMember =>
            apart upper (List.mem_append_left _ upperMember) lower
              (List.mem_append_left _ lowerMember)
      have lastMember : (path, node) ∈ before ++ [(path, node)] :=
        List.mem_append_right _ (List.mem_singleton_self _)
      have beside (write : Path × Node) (member : write ∈ before) :
          Path.contains write.1 path = false ∧
            Path.contains path write.1 = false := by
        have differs : write.1 ≠ path := by
          intro same
          have order := isBefore write member
          rw [same, Std.ReflOrd.compare_self] at order
          cases order
        have isMember := List.mem_append_left [(path, node)] member
        rw [Bool.eq_false_iff, Bool.eq_false_iff]
        refine ⟨fun above => differs ?_, fun below => differs ?_⟩
        · rw [apart _ isMember _ lastMember above]
        · rw [← apart _ lastMember _ isMember below]
      have uncovered : (empty.adds before).covering? path = none := by
        refine covering?_eq_none_iff.mpr fun write member => ?_
        rw [folded] at member
        exact (beside write member).1
      rw [adds_append]
      change ((empty.adds before).add path node).writes = _
      rw [writes_add_of_open uncovered, folded,
        List.filter_eq_self.mpr fun write member => by
          rw [(beside write member).2]
          rfl]
      exact Sorted.insert_of_above isBefore node

/-- Writes apart from one another that address data are laid in their order. -/
theorem apply_restrict_of_apart
    {writes : List (Path × Node)} (ascending : Sorted.Ascending writes)
    (apart : ∀ upper ∈ writes, ∀ lower ∈ writes,
      Path.contains upper.1 lower.1 = true → upper = lower)
    (canonical : ∀ write ∈ writes, write.2.Canonical)
    (unreserved : ∀ write ∈ writes, write.1.Unreserved)
    (base : Path) (data : Node) :
    ((empty.adds writes).restrict base).apply data =
      data.lay (writes.filterMap (seenFrom base)) := by
  have valid := Valid.empty.adds canonical
  have shown := writes_restrict valid base
  rw [writes_adds_of_apart ascending apart] at shown
  have plain : ∀ write ∈ ((empty.adds writes).restrict base).writes,
      isPriorityPath write.1 = false := by
    intro write member
    rw [shown] at member
    obtain ⟨whole, wholeMember, isSeen⟩ := List.mem_filterMap.mp member
    exact isPriorityPath_of_unreserved
      (unreserved_of_seenFrom (unreserved whole wholeMember) isSeen)
  rw [apply_eq_lay, laid, ← shown,
    List.filter_eq_self.mpr fun write member => by
      rw [plain write member]
      rfl,
    List.filter_eq_nil_iff.mpr fun write member => by
      rw [plain write member]
      exact Bool.false_ne_true,
    List.append_nil]

end Overlay

end Replica
