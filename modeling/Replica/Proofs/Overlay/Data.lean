import Replica.Proofs.Node.Data
import Replica.Proofs.Overlay.Replay

/-!
# Folding writes and making them again, as far as data go

With deletions and priorities among the writes, an overlay still gives the data that the writes
give when they are made again, provided that none of them is to turn a leaf into a branch. Over a
leaf it matters when a deletion is made: before the leaf is gone it has nothing to delete.
-/

namespace Replica

namespace Node

/-- A location of a priority, or one with no leaf strictly above it. -/
def Admits (data : Node) (path : Path) : Prop :=
  Overlay.isPriorityPath path = false →
    ∀ above below, path = above ++ below → below ≠ [] →
      (data.descendant above).isLeaf = false

theorem admits_root (data : Node) : data.Admits [] := by
  intro _ above below located proper
  exact absurd (List.append_eq_nil_iff.mp located.symm).2 proper

theorem Admits.cons
    {data : Node} {key : Key} {rest : Path} (branch : data.isLeaf = false)
    (admits : (data.child key).Admits rest) : data.Admits (key :: rest) := by
  intro notPriority above below located proper
  cases above with
  | nil => exact branch
  | cons first others =>
      obtain ⟨rfl, within⟩ := List.cons.inj located
      have sameEnd : Overlay.isPriorityPath rest =
          Overlay.isPriorityPath (key :: rest) := by
        change rest = others ++ below at within
        rw [located, within, Overlay.isPriorityPath, Overlay.isPriorityPath,
          List.getLast?_append_of_ne_nil _ proper,
          List.getLast?_append_of_ne_nil _ proper]
      exact admits (sameEnd.trans notPriority) others below within proper

private theorem Admits.child
    {data : Node} {key : Key} {rest : Path}
    (admits : data.Admits (key :: rest))
    (plain : Overlay.isPriorityPath rest = Overlay.isPriorityPath (key :: rest)) :
    (data.child key).Admits rest := by
  intro notPriority above below located proper
  refine admits (plain ▸ notPriority) (key :: above) below ?_ proper
  rw [located, List.cons_append]

/-- Over a leaf, only priorities are admitted below. -/
theorem Admits.isPriorityPath
    {data : Node} {path : Path} (admits : data.Admits path)
    (proper : path ≠ []) (leaf : data.isLeaf = true) :
    Overlay.isPriorityPath path = true := by
  by_contra notPriority
  have branch := admits (by simpa using notPriority) [] path rfl proper
  change data.isLeaf = false at branch
  rw [leaf] at branch
  cases branch

/-- A write that is admitted leaves the value alone. -/
theorem value?_setDescendant_of_admits
    {node : Node} {path : Path} (proper : path ≠ [])
    (priorityOnly : node.isLeaf = true → Overlay.isPriorityPath path = true)
    (replacement : Node) :
    (node.setDescendant path replacement).value? = node.value? := by
  cases leaf : node.isLeaf with
  | false =>
      exact value?_setDescendant_of_branch proper leaf replacement
  | true =>
      have priority := priorityOnly leaf
      cases atPriority : path.AtPriority with
      | true =>
          cases path with
          | nil => exact absurd rfl proper
          | cons key rest =>
              have reserved : key.isPriority = true := atPriority
              rw [setDescendant_cons_of_priority reserved,
                value?_setPriority]
      | false =>
          have inChild := Path.inChild_of_not_atPriority proper atPriority
          rw [setDescendant_leaf leaf inChild fun unreserved => ?_]
          rw [Overlay.isPriorityPath_of_unreserved unreserved] at priority
          cases priority

private theorem value?_lay_of_admits
    {node : Node} {writes : List (Path × Node)}
    (proper : ∀ write ∈ writes, write.1 ≠ [])
    (priorityOnly : node.isLeaf = true →
      ∀ write ∈ writes, Overlay.isPriorityPath write.1 = true) :
    (node.lay writes).value? = node.value? := by
  induction writes generalizing node with
  | nil => rfl
  | cons write rest inductionHypothesis =>
      obtain ⟨first, others⟩ := List.forall_mem_cons.mp proper
      have value :=
        value?_setDescendant_of_admits first
          (fun leaf => priorityOnly leaf write List.mem_cons_self) write.2
      rw [lay_cons, inductionHypothesis others ?_, value]
      intro leaf other member
      rw [isLeaf_eq_isSome_value?, value, ← isLeaf_eq_isSome_value?] at leaf
      exact priorityOnly leaf other (List.mem_cons_of_mem write member)

end Node

namespace Overlay

private theorem admits_of_seenFrom
    {data : Node} {key : Key} (unreserved : key.isPriority = false)
    {write seen : Path × Node} (admits : data.Admits write.1)
    (isSeen : seenFrom [key] write = some seen) :
    (data.child key).Admits seen.1 := by
  have plain :=
    isPriorityPath_of_seenFrom (Path.unreserved_singleton unreserved) isSeen
  rcases seenFrom_cases isSeen with ⟨atRoot, _⟩ | rfl
  · rw [atRoot]
    exact Node.admits_root _
  · exact admits.child plain

private theorem admits_restrict
    {overlay : Overlay} (valid : overlay.Valid) {data : Node}
    (admits : ∀ entry ∈ overlay.writes, data.Admits entry.1)
    {key : Key} (unreserved : key.isPriority = false) :
    ∀ entry ∈ (overlay.restrict [key]).writes,
      (data.child key).Admits entry.1 := by
  intro entry member
  rw [writes_restrict valid] at member
  obtain ⟨write, writeMember, isSeen⟩ := List.mem_filterMap.mp member
  exact admits_of_seenFrom unreserved (admits write writeMember) isSeen

private theorem admits_adds
    {overlay : Overlay} {data : Node}
    (admits : ∀ entry ∈ overlay.writes, data.Admits entry.1)
    {writes : List (Path × Node)}
    (admitted : ∀ write ∈ writes, data.Admits write.1) :
    ∀ entry ∈ (overlay.adds writes).writes, data.Admits entry.1 := by
  intro entry member
  rcases path_of_mem_adds member with ⟨old, oldMember, same⟩ | ⟨new, newMember, same⟩
  · exact same ▸ admits old oldMember
  · exact same ▸ admitted new newMember

/-- Under an open root, writes that the data admit leave the value alone. -/
theorem value?_apply_of_admits
    {overlay : Overlay} (valid : overlay.Valid)
    (uncovered : overlay.root? = none) {data : Node}
    (admits : ∀ entry ∈ overlay.writes, data.Admits entry.1) :
    (overlay.apply data).value? = data.value? := by
  have proper := proper_of_mem_laid valid uncovered
  rw [apply_eq_lay]
  refine Node.value?_lay_of_admits proper fun leaf write member => ?_
  exact (admits write (mem_laid.mp member)).isPriorityPath
    (proper write member) leaf

/-- Laying a write that was folded into an overlay gives the data that laying the overlay and then
making the write gives. -/
theorem dataEq_apply_add
    {overlay : Overlay} (valid : overlay.Valid) {data : Node}
    (admits : ∀ entry ∈ overlay.writes, data.Admits entry.1)
    {path : Path} {node : Node} (canonical : node.Canonical)
    (admitted : data.Admits path) (dataCanonical : data.Canonical) :
    ((overlay.add path node).apply data).dataEq
      ((overlay.apply data).setDescendant path node) = true := by
  -- One step down, the overlay is what the child sees of it, and the data are those of the child.
  induction path generalizing overlay data with
  | nil =>
      rw [apply_of_root? (valid.add canonical []) (root?_add_root valid node)]
      exact Node.dataEq_refl node
  | cons key rest inductionHypothesis =>
      have proper : key :: rest ≠ [] := List.cons_ne_nil key rest
      have added := valid.add canonical (key :: rest)
      have applied := valid.apply dataCanonical
      have rooted := root?_add_of_proper valid proper node
      cases isRooted : overlay.root? with
      | some root =>
          rw [isRooted, Option.map_some] at rooted
          rw [apply_of_root? added rooted, apply_of_root? valid isRooted]
          exact Node.dataEq_refl _
      | none =>
          -- No write at the root: both sides keep the value of the data, and their children are
          -- compared one by one.
          rw [isRooted, Option.map_none] at rooted
          have addedAdmits : ∀ entry ∈ (overlay.add (key :: rest) node).writes,
              data.Admits entry.1 :=
            @admits_adds overlay data admits [(key :: rest, node)]
              (by simpa using admitted)
          have value := value?_apply_of_admits valid isRooted admits
          have addedValue := value?_apply_of_admits added rooted addedAdmits
          have placedValue :=
            Node.value?_setDescendant_of_admits proper (fun leaf =>
              admitted.isPriorityPath proper (by
                rw [Node.isLeaf_eq_isSome_value?, ← value,
                  ← Node.isLeaf_eq_isSome_value?]
                exact leaf)) node
          refine Node.dataEq_of_children (added.apply dataCanonical)
            (applied.setDescendant canonical _) ?_ ?_
          · rw [addedValue, placedValue, value]
            exact Node.value?_of_dataEq (Node.dataEq_refl data)
          · intro other unreserved
            have below := child_apply valid unreserved dataCanonical
            have shown :=
              child_apply_add valid canonical dataCanonical unreserved
                (key :: rest)
            refine Node.dataEq_trans (Node.dataEq_of_equiv shown) ?_
            by_cases here : other = key
            · subst here
              have seen : seenFrom [other] (other :: rest, node) =
                  some (rest, node) :=
                seenFrom_below [other] rest node
              rw [seen, Node.setDescendant_cons_of_not_priority unreserved]
              have deeper :=
                inductionHypothesis (valid.restrict [other])
                  (admits_restrict valid admits unreserved)
                  (admits_of_seenFrom unreserved admitted seen)
                  (dataCanonical.child other)
              refine Node.dataEq_trans deeper (Node.dataEq_of_equiv ?_)
              refine Setoid.trans (Node.setDescendant_congr
                (Setoid.symm below) (Setoid.refl node)
                ((valid.restrict [other]).apply
                  (dataCanonical.child other))
                (applied.child other) canonical canonical rest) ?_
              exact Setoid.symm (Node.child_setChild_self applied
                ((applied.child other).setDescendant canonical rest)
                unreserved)
            · have unseen : seenFrom [other] (key :: rest, node) = none :=
                seenFrom_beside node
                  (Path.contains_of_heads_ne (Ne.symm here) rest [])
                  (Path.contains_of_heads_ne here [] rest)
              rw [unseen]
              refine Node.dataEq_of_equiv (Setoid.trans (Setoid.symm below) ?_)
              have beside :=
                Node.descendant_setDescendant_beside applied canonical
                  (Path.unreserved_singleton unreserved)
                  (Path.contains_of_heads_ne (Ne.symm here) rest [])
                  (Path.contains_of_heads_ne here [] rest)
              exact Setoid.symm beside

/-- Laying folded writes gives the data that making them one after the other gives. -/
theorem dataEq_apply_adds
    {overlay : Overlay} (valid : overlay.Valid) {data : Node}
    (admits : ∀ entry ∈ overlay.writes, data.Admits entry.1)
    {writes : List (Path × Node)}
    (canonical : ∀ write ∈ writes, write.2.Canonical)
    (admitted : ∀ write ∈ writes, data.Admits write.1)
    (dataCanonical : data.Canonical) :
    ((overlay.adds writes).apply data).dataEq
      ((overlay.apply data).lay writes) = true := by
  -- From the back: the last write is folded into an overlay that the data admit as well.
  induction writes using List.reverseRecOn with
  | nil => exact Node.dataEq_refl _
  | append_singleton before last inductionHypothesis =>
      obtain ⟨beforeCanonical, lastCanonical⟩ :=
        List.forall_mem_append.mp canonical
      obtain ⟨beforeAdmitted, lastAdmitted⟩ :=
        List.forall_mem_append.mp admitted
      have single := List.mem_singleton_self last
      have folded := valid.adds beforeCanonical
      have step :=
        dataEq_apply_add folded (admits_adds admits beforeAdmitted)
          (lastCanonical last single) (lastAdmitted last single)
          dataCanonical
      rw [adds_append, Node.lay_append]
      refine Node.dataEq_trans step ?_
      exact Node.setDescendant_of_dataEq
        (inductionHypothesis beforeCanonical beforeAdmitted)
        (folded.apply dataCanonical)
        ((valid.apply dataCanonical).lay beforeCanonical)
        (lastCanonical last single) last.1

end Overlay

end Replica
