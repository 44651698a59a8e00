import Replica.Proofs.Overlay.Apply
import Replica.Proofs.Overlay.Leaf
import Replica.Proofs.Overlay.Turn

/-!
# Leaves under a turning overlay

A leaf that an overlay gives is either the root of the overlay or a leaf below it with another
priority. When the overlay turns by writes below children, the priorities that it sets stay, and
a leaf at its root stays as it is unless data comes to lie below it.
-/

namespace Replica.Overlay

/-! ## The root -/

/-- A write below the root is folded into it. -/
theorem root?_add_of_proper
    {overlay : Overlay} (valid : overlay.Valid)
    {path : Path} (proper : path ≠ []) (node : Node) :
    (overlay.add path node).root? =
      overlay.root?.map fun root => root.setDescendant path node := by
  unfold root?
  rcases covering?_cases valid path with
    ⟨above, below, existing, rfl, stored, covered⟩ | uncovered
  · rw [find?_add_of_covered covered]
    cases above with
    | nil => rw [if_pos rfl, stored, Option.map_some, List.nil_append]
    | cons key rest =>
        rw [if_neg (List.cons_ne_nil key rest).symm]
        cases rooted : Sorted.find? [] overlay.writes with
        | none => rfl
        | some root =>
            have nothing :=
              find?_of_covered valid rooted (List.cons_ne_nil key rest)
            rw [List.nil_append, stored] at nothing
            cases nothing
  · have notAbove : Path.contains path [] = false := by
      cases path with
      | nil => exact absurd rfl proper
      | cons key rest => rfl
    rw [find?_add_of_open valid uncovered, if_neg proper.symm, notAbove,
      if_neg Bool.false_ne_true]
    cases rooted : Sorted.find? [] overlay.writes with
    | none => rfl
    | some root =>
        have covered := covering?_of_find? valid rooted path
        rw [List.nil_append, uncovered] at covered
        cases covered

@[simp]
theorem root?_add_root
    {overlay : Overlay} (valid : overlay.Valid) (node : Node) :
    (overlay.add [] node).root? = some node := by
  unfold root?
  rw [writes_add_root valid]
  rfl

private theorem root?_adds_of_proper
    {overlay : Overlay} (valid : overlay.Valid)
    {writes : List (Path × Node)}
    (canonical : ∀ write ∈ writes, write.2.Canonical)
    (proper : ∀ write ∈ writes, write.1 ≠ []) :
    (overlay.adds writes).root? =
      overlay.root?.map fun root => root.lay writes := by
  induction writes generalizing overlay with
  | nil => exact Option.map_id'.symm
  | cons write rest inductionHypothesis =>
      obtain ⟨first, others⟩ := List.forall_mem_cons.mp canonical
      obtain ⟨firstProper, othersProper⟩ := List.forall_mem_cons.mp proper
      rw [adds_cons, inductionHypothesis (valid.add first write.1) others
        othersProper, root?_add_of_proper valid firstProper,
        Option.map_map]
      rfl

/-- Writes that leave the root open do not lie at the root, and it was open before. -/
theorem proper_of_root?_adds_eq_none
    {overlay : Overlay} (valid : overlay.Valid)
    {writes : List (Path × Node)}
    (canonical : ∀ write ∈ writes, write.2.Canonical)
    (uncovered : (overlay.adds writes).root? = none) :
    ∀ write ∈ writes, write.1 ≠ [] := by
  have open' : ((overlay.adds writes).node? []).isSome = false := by
    rw [← root?_restrict (valid.adds canonical), restrict_root, uncovered]
    rfl
  rw [isSome_node?_adds valid canonical, Bool.or_eq_false_iff,
    List.any_eq_false] at open'
  intro write member atRoot
  refine open'.2 write member ?_
  rw [atRoot]
  rfl

/-- Two overlays have the same root, or the first has a branch where the second has a root too. -/
def RootAlike (overlay other : Overlay) : Prop :=
  overlay.root? = other.root? ∨
    ∃ root otherRoot, overlay.root? = some root ∧
      other.root? = some otherRoot ∧ root.isLeaf = false

private theorem RootAlike.add
    {overlay other : Overlay} (alike : RootAlike overlay other)
    (valid : overlay.Valid) (otherValid : other.Valid)
    (path : Path) (node : Node) :
    RootAlike (overlay.add path node) (other.add path node) := by
  by_cases atRoot : path = []
  · subst atRoot
    refine Or.inl ?_
    rw [root?_add_root valid, root?_add_root otherValid]
  · unfold RootAlike
    rw [root?_add_of_proper valid atRoot,
      root?_add_of_proper otherValid atRoot]
    rcases alike with same | ⟨root, otherRoot, rooted, otherRooted, branch⟩
    · rw [same]
      exact Or.inl rfl
    · rw [rooted, otherRooted]
      refine Or.inr ⟨_, _, rfl, rfl, ?_⟩
      rw [Bool.eq_false_iff]
      intro leaf
      rw [Node.isLeaf_of_isLeaf_setDescendant atRoot leaf] at branch
      cases branch

private theorem RootAlike.adds
    {overlay other : Overlay} (alike : RootAlike overlay other)
    (valid : overlay.Valid) (otherValid : other.Valid)
    {writes : List (Path × Node)}
    (canonical : ∀ write ∈ writes, write.2.Canonical) :
    RootAlike (overlay.adds writes) (other.adds writes) := by
  induction writes generalizing overlay other with
  | nil => exact alike
  | cons write rest inductionHypothesis =>
      obtain ⟨first, others⟩ := List.forall_mem_cons.mp canonical
      exact inductionHypothesis
        (alike.add valid otherValid write.1 write.2)
        (valid.add first write.1) (otherValid.add first write.1) others

/-! ## Priorities -/

/-- Two overlays leave the root open, and store the same at locations that stand for a
priority. -/
structure PriorityAlike (overlay other : Overlay) : Prop where
  uncovered : overlay.root? = none
  otherUncovered : other.root? = none
  stored : ∀ path : Path, path.AtPriority = true →
    Sorted.find? path overlay.writes = Sorted.find? path other.writes

theorem PriorityAlike.refl
    {overlay : Overlay} (uncovered : overlay.root? = none) :
    PriorityAlike overlay overlay :=
  ⟨uncovered, uncovered, fun _ _ => rfl⟩

theorem PriorityAlike.symm
    {overlay other : Overlay} (alike : PriorityAlike overlay other) :
    PriorityAlike other overlay :=
  ⟨alike.otherUncovered, alike.uncovered, fun path atPriority =>
    (alike.stored path atPriority).symm⟩

theorem PriorityAlike.trans
    {first second third : Overlay} (before : PriorityAlike first second)
    (after : PriorityAlike second third) : PriorityAlike first third :=
  ⟨before.uncovered, after.otherUncovered, fun path atPriority =>
    (before.stored path atPriority).trans (after.stored path atPriority)⟩

private theorem root?_add_eq_none
    {overlay : Overlay} (valid : overlay.Valid)
    (uncovered : overlay.root? = none)
    {path : Path} (proper : path ≠ []) (node : Node) :
    (overlay.add path node).root? = none := by
  rw [root?_add_of_proper valid proper, uncovered]
  rfl

/-- What covers a location under an open root lies below the root itself. -/
private theorem ne_nil_of_find?
    {overlay : Overlay} (uncovered : overlay.root? = none)
    {above : Path} {node : Node}
    (stored : Sorted.find? above overlay.writes = some node) :
    above ≠ [] := by
  rintro rfl
  rw [root?, stored] at uncovered
  cases uncovered

/-- A write below a child does not concern the priority of the root. -/
theorem priorityAlike_add
    {overlay : Overlay} (valid : overlay.Valid)
    (uncovered : overlay.root? = none)
    {path : Path} (inChild : path.InChild) (node : Node) :
    PriorityAlike overlay (overlay.add path node) := by
  refine ⟨uncovered, root?_add_eq_none valid uncovered inChild.ne_nil node,
    fun other atPriority => ?_⟩
  have elsewhere {written : Path} (writtenInChild : written.InChild) :
      other ≠ written := by
    rintro rfl
    rw [writtenInChild.atPriority] at atPriority
    cases atPriority
  rcases covering?_cases valid path with
    ⟨above, below, existing, rfl, stored, covered⟩ | notCovered
  · have aboveInChild : above.InChild := by
      cases above with
      | nil => exact absurd rfl (ne_nil_of_find? uncovered stored)
      | cons key rest => exact inChild
    rw [find?_add_of_covered covered, if_neg (elsewhere aboveInChild)]
  · have notAbove : Path.contains path other = false := by
      cases path with
      | nil => cases inChild
      | cons key rest =>
          cases other with
          | nil => cases atPriority
          | cons otherKey otherRest =>
              refine Path.contains_of_heads_ne ?_ rest otherRest
              rintro rfl
              have unreserved : key.isPriority = false := inChild
              have reserved : key.isPriority = true := atPriority
              rw [unreserved] at reserved
              cases reserved
    rw [find?_add_of_open valid notCovered, if_neg (elsewhere inChild),
      notAbove, if_neg Bool.false_ne_true]

/-- The same write at a priority keeps the stored priorities the same. -/
private theorem PriorityAlike.add_atPriority
    {overlay other : Overlay} (alike : PriorityAlike overlay other)
    (valid : overlay.Valid) (otherValid : other.Valid)
    {path : Path} (atPriority : path.AtPriority = true) (node : Node) :
    PriorityAlike (overlay.add path node) (other.add path node) := by
  have proper : path ≠ [] := by
    rintro rfl
    cases atPriority
  refine ⟨root?_add_eq_none valid alike.uncovered proper node,
    root?_add_eq_none otherValid alike.otherUncovered proper node,
    fun location isAtPriority => ?_⟩
  have same := alike.stored location isAtPriority
  have above_atPriority {above below : Path} (isAbove : above ≠ [])
      (location : (above ++ below).AtPriority = true) :
      above.AtPriority = true := by
    cases above with
    | nil => exact absurd rfl isAbove
    | cons key rest => exact location
  rcases covering?_cases valid path with
    ⟨above, below, existing, rfl, stored, covered⟩ | notCovered
  · have otherStored := alike.stored above (above_atPriority
      (ne_nil_of_find? alike.uncovered stored) atPriority)
    rw [stored] at otherStored
    rw [find?_add_of_covered covered, find?_add_of_covered
      (covering?_of_find? otherValid otherStored.symm below), same]
  · rcases covering?_cases otherValid path with
      ⟨above, below, existing, rfl, stored, _⟩ | otherNotCovered
    · have here := alike.stored above (above_atPriority
        (ne_nil_of_find? alike.otherUncovered stored) atPriority)
      rw [stored] at here
      rw [covering?_of_find? valid here below] at notCovered
      cases notCovered
    · rw [find?_add_of_open valid notCovered,
        find?_add_of_open otherValid otherNotCovered, same]

private theorem PriorityAlike.add
    {overlay other : Overlay} (alike : PriorityAlike overlay other)
    (valid : overlay.Valid) (otherValid : other.Valid)
    {path : Path} (proper : path ≠ []) (node : Node) :
    PriorityAlike (overlay.add path node) (other.add path node) := by
  cases atPriority : path.AtPriority with
  | true => exact alike.add_atPriority valid otherValid atPriority node
  | false =>
      have inChild := Path.inChild_of_not_atPriority proper atPriority
      have before := priorityAlike_add valid alike.uncovered inChild node
      have after :=
        priorityAlike_add otherValid alike.otherUncovered inChild node
      exact before.symm.trans (alike.trans after)

private theorem PriorityAlike.adds
    {overlay other : Overlay} (alike : PriorityAlike overlay other)
    (valid : overlay.Valid) (otherValid : other.Valid)
    {writes : List (Path × Node)}
    (canonical : ∀ write ∈ writes, write.2.Canonical)
    (proper : ∀ write ∈ writes, write.1 ≠ []) :
    PriorityAlike (overlay.adds writes) (other.adds writes) := by
  induction writes generalizing overlay other with
  | nil => exact alike
  | cons write rest inductionHypothesis =>
      obtain ⟨first, others⟩ := List.forall_mem_cons.mp canonical
      obtain ⟨firstProper, othersProper⟩ := List.forall_mem_cons.mp proper
      exact inductionHypothesis
        (alike.add valid otherValid firstProper write.2)
        (valid.add first write.1) (otherValid.add first write.1) others
        othersProper

private theorem priorityAlike_adds
    {overlay : Overlay} (valid : overlay.Valid)
    (uncovered : overlay.root? = none)
    {writes : List (Path × Node)}
    (canonical : ∀ write ∈ writes, write.2.Canonical)
    (inChild : ∀ write ∈ writes, write.1.InChild) :
    PriorityAlike overlay (overlay.adds writes) := by
  induction writes generalizing overlay with
  | nil => exact .refl uncovered
  | cons write rest inductionHypothesis =>
      obtain ⟨first, others⟩ := List.forall_mem_cons.mp canonical
      obtain ⟨firstInChild, othersInChild⟩ :=
        List.forall_mem_cons.mp inChild
      have alike := priorityAlike_add valid uncovered firstInChild write.2
      exact alike.trans (inductionHypothesis (valid.add first write.1)
        alike.otherUncovered others othersInChild)

/-- Overlays that store the same priorities lay the same priorities. -/
theorem PriorityAlike.filter_laid
    {overlay other : Overlay} (alike : PriorityAlike overlay other)
    (valid : overlay.Valid) (otherValid : other.Valid) :
    overlay.laid.filter (fun write => write.1.AtPriority) =
      other.laid.filter fun write => write.1.AtPriority := by
  have stored :
      overlay.writes.filter (fun write => write.1.AtPriority) =
        other.writes.filter fun write => write.1.AtPriority := by
    have entries :=
      Sorted.forall₂_of_find? (· = ·)
        (Sorted.ascending_filter (fun write => write.1.AtPriority)
          valid.ascending)
        (Sorted.ascending_filter (fun write => write.1.AtPriority)
          otherValid.ascending) (by
        intro path
        have same : Sorted.find? path (overlay.writes.filter
              fun write => write.1.AtPriority) =
            Sorted.find? path (other.writes.filter
              fun write => write.1.AtPriority) := by
          rw [Sorted.find?_filter _ valid.ascending,
            Sorted.find?_filter _ otherValid.ascending]
          cases atPriority : path.AtPriority with
          | true => rw [alike.stored path atPriority]
          | false => simp [atPriority]
        rw [same]
        cases Sorted.find? path (other.writes.filter _) with
        | none => exact Option.Rel.none
        | some node => exact Option.Rel.some rfl)
    refine List.forall₂_eq_eq_eq ▸ entries.imp fun left right same => ?_
    exact Prod.ext same.1 same.2
  have commute (keep : Path × Node → Bool) (writes : List (Path × Node)) :
      (writes.filter keep).filter (fun write => write.1.AtPriority) =
        (writes.filter fun write => write.1.AtPriority).filter keep :=
    List.filter_comm _ _ _
  unfold laid
  rw [List.filter_append, List.filter_append, commute, commute, commute,
    commute, stored]

/-! ## Turning by writes below children -/

section

variable {overlay next : Overlay} {writes : List (Path × Node)}
  (turns : Turns overlay next writes)
  (valid : overlay.Valid)
  (canonical : ∀ write ∈ writes, write.2.Canonical)
  (inChild : ∀ write ∈ writes, write.1.InChild)

include turns valid canonical inChild

/-- A leaf at the root stays there, unless data comes to lie below it. -/
theorem Turns.root?_of_leaf
    (apart : ∀ upper ∈ writes, ∀ lower ∈ writes,
      Path.contains upper.1 lower.1 = true → upper = lower)
    {root : Node} (rooted : overlay.root? = some root)
    (leaf : root.isLeaf = true) :
    next.root? = some root ∨
      ∃ nextRoot, next.root? = some nextRoot ∧
        ∃ key : Key, key.isPriority = false ∧
          (nextRoot.child key).isEmpty = false := by
  have proper : ∀ write ∈ writes, write.1 ≠ [] :=
    fun write member => (inChild write member).ne_nil
  cases turns with
  | kept same =>
      rw [same]
      exact Or.inl rooted
  | added isNext =>
      have nextRooted := root?_adds_of_proper valid canonical proper
      rw [rooted, Option.map_some] at nextRooted
      rw [isNext, nextRooted]
      rcases Node.leaf_or_child_of_lay
          (valid.canonical _ (Sorted.mem_of_find?_eq_some rooted)) leaf
          canonical proper apart with stillLeaf | hasChild
      · rw [Node.lay_eq_of_isLeaf inChild stillLeaf]
        exact Or.inl rfl
      · exact Or.inr ⟨_, rfl, hasChild⟩
  | @removed before after canonicalBefore canonicalAfter was isNext =>
      have validBefore : (empty.adds before).Valid :=
        Valid.empty.adds canonicalBefore
      have alike :
          RootAlike ((empty.adds before).adds writes)
            (empty.adds before) := by
        unfold RootAlike
        rw [root?_adds_of_proper validBefore canonical proper]
        cases (empty.adds before).root? with
        | none => exact Or.inl rfl
        | some first =>
            cases stillLeaf : (first.lay writes).isLeaf with
            | true =>
                rw [Option.map_some,
                  Node.lay_eq_of_isLeaf inChild stillLeaf]
                exact Or.inl rfl
            | false => exact Or.inr ⟨_, _, rfl, rfl, stillLeaf⟩
      have further :=
        alike.adds (validBefore.adds canonical) validBefore canonicalAfter
      rw [← adds_append, ← adds_append, ← adds_append,
        ← List.append_assoc, ← was, ← isNext] at further
      rcases further with same | ⟨branch, _, isRoot, _, notLeaf⟩
      · rw [← same]
        exact Or.inl rooted
      · rw [rooted] at isRoot
        cases isRoot
        rw [leaf] at notLeaf
        cases notLeaf

/-- Under an open root, the priorities of the root stay as they are stored. -/
theorem Turns.priorityAlike (uncovered : overlay.root? = none) :
    PriorityAlike overlay next := by
  cases turns with
  | kept same =>
      rw [same]
      exact .refl uncovered
  | added isNext =>
      rw [isNext]
      exact priorityAlike_adds valid uncovered canonical inChild
  | @removed before after canonicalBefore canonicalAfter was isNext =>
      have validBefore : (empty.adds before).Valid :=
        Valid.empty.adds canonicalBefore
      rw [was] at uncovered
      have proper :=
        proper_of_root?_adds_eq_none Valid.empty
          (canonical_of_mem_append
            (canonical_of_mem_append canonicalBefore canonical)
            canonicalAfter) uncovered
      have beforeUncovered : (empty.adds before).root? = none := by
        rw [root?_adds_of_proper Valid.empty canonicalBefore
          fun write member => proper write (List.mem_append_left after
            (List.mem_append_left writes member))]
        rfl
      have alike :=
        (priorityAlike_adds validBefore beforeUncovered canonical
          inChild).symm.adds (validBefore.adds canonical) validBefore
            canonicalAfter fun write member =>
              proper write (List.mem_append_right (before ++ writes) member)
      rw [← adds_append, ← adds_append, ← adds_append,
        ← List.append_assoc, ← was, ← isNext] at alike
      exact alike

end

/-! ## Leaves over data that changes below children -/

/-- What an overlay with an open root lays does not lie at the root. -/
theorem proper_of_mem_laid
    {overlay : Overlay} (valid : overlay.Valid)
    (uncovered : overlay.root? = none) :
    ∀ write ∈ overlay.laid, write.1 ≠ [] := by
  intro write member
  exact ne_nil_of_find? uncovered
    (Sorted.find?_of_mem valid.ascending (mem_laid.mp member))

/-- Under an open root, a leaf lies over a leaf. -/
theorem isLeaf_of_isLeaf_apply
    {overlay : Overlay} (valid : overlay.Valid)
    (uncovered : overlay.root? = none) {node : Node}
    (leaf : (overlay.apply node).isLeaf = true) : node.isLeaf = true := by
  rw [apply_eq_lay] at leaf
  exact Node.isLeaf_of_isLeaf_lay (proper_of_mem_laid valid uncovered) leaf

section

variable {overlay next : Overlay} {writes : List (Path × Node)}
  (turns : Turns overlay next writes)
  (valid : overlay.Valid) (nextValid : next.Valid)
  (canonical : ∀ write ∈ writes, write.2.Canonical)
  (inChild : ∀ write ∈ writes, write.1.InChild)

include turns valid nextValid canonical inChild

/-- Under an open root, no leaf comes to lie over a branch. -/
theorem Turns.branch_of_branch
    {node : Node} {told : List (Path × Node)}
    (toldInChild : ∀ write ∈ told, write.1.InChild)
    (uncovered : overlay.root? = none) (branch : node.isLeaf = false) :
    next.root? = none ∧ (node.lay told).isLeaf = false ∧
      (next.apply (node.lay told)).isLeaf = false := by
  have nextUncovered :=
    (turns.priorityAlike valid canonical inChild uncovered).otherUncovered
  have stillBranch : (node.lay told).isLeaf = false := by
    rw [Bool.eq_false_iff]
    intro leaf
    rw [Node.lay_eq_of_isLeaf toldInChild leaf, branch] at leaf
    cases leaf
  refine ⟨nextUncovered, stillBranch, ?_⟩
  rw [Bool.eq_false_iff]
  intro leaf
  rw [isLeaf_of_isLeaf_apply nextValid nextUncovered leaf] at stillBranch
  cases stillBranch

variable (apart : ∀ upper ∈ writes, ∀ lower ∈ writes,
    Path.contains upper.1 lower.1 = true → upper = lower)
  {node : Node} (leaf : (overlay.apply node).isLeaf = true)

include apart leaf

/-- A leaf that is one before and after is the same leaf. -/
theorem Turns.apply_of_leaf
    {told : List (Path × Node)}
    (toldInChild : ∀ write ∈ told, write.1.InChild)
    (nextLeaf : (next.apply (node.lay told)).isLeaf = true) :
    next.apply (node.lay told) = overlay.apply node := by
  cases rooted : overlay.root? with
  | some root =>
      rw [apply_of_root? valid rooted] at leaf ⊢
      rcases turns.root?_of_leaf valid canonical inChild apart rooted
          leaf with
        stays | ⟨nextRoot, nextRooted, key, unreserved, present⟩
      · exact apply_of_root? nextValid stays _
      · rw [apply_of_root? nextValid nextRooted] at nextLeaf
        rw [Node.child_leaf nextLeaf unreserved] at present
        cases present
  | none =>
      have alike := turns.priorityAlike valid canonical inChild rooted
      have proper := proper_of_mem_laid valid rooted
      have nextProper := proper_of_mem_laid nextValid alike.otherUncovered
      have toldLeaf :=
        isLeaf_of_isLeaf_apply nextValid alike.otherUncovered nextLeaf
      rw [apply_eq_lay] at leaf nextLeaf
      rw [apply_eq_lay, apply_eq_lay,
        Node.lay_eq_lay_atPriority nextProper nextLeaf,
        Node.lay_eq_lay_atPriority proper leaf,
        Node.lay_eq_of_isLeaf toldInChild toldLeaf,
        alike.filter_laid valid nextValid]

/-- Where a leaf gives way to nothing, the data below has given way too. -/
theorem Turns.branch_of_leaf
    {data : Node} (dataCanonical : data.Canonical)
    (nextBranch : (next.apply data).isLeaf = false)
    (childless : ∀ key : Key, key.isPriority = false →
      ((next.apply data).child key).isEmpty = true) :
    next.root? = none ∧ data.isLeaf = false := by
  cases rooted : overlay.root? with
  | some root =>
      rw [apply_of_root? valid rooted] at leaf
      rcases turns.root?_of_leaf valid canonical inChild apart rooted
          leaf with
        stays | ⟨nextRoot, nextRooted, key, unreserved, present⟩
      · rw [apply_of_root? nextValid stays, leaf] at nextBranch
        cases nextBranch
      · have absent := childless key unreserved
        rw [apply_of_root? nextValid nextRooted, present] at absent
        cases absent
  | none =>
      have nextUncovered := (turns.priorityAlike valid canonical inChild
        rooted).otherUncovered
      refine ⟨nextUncovered, ?_⟩
      rw [Bool.eq_false_iff]
      intro dataLeaf
      rcases Node.leaf_or_child_of_lay dataCanonical dataLeaf
          nextValid.canonical_of_mem_laid
          (proper_of_mem_laid nextValid nextUncovered)
          (fun upper upperMember lower lowerMember =>
            nextValid.eq_of_contains (mem_laid.mp upperMember)
              (mem_laid.mp lowerMember)) with
        isLeaf | ⟨key, unreserved, present⟩
      · rw [← apply_eq_lay, nextBranch] at isLeaf
        cases isLeaf
      · rw [← apply_eq_lay, childless key unreserved] at present
        cases present

end

end Replica.Overlay
