import Replica.Filter
import Replica.Proofs.Ledger
import Replica.Proofs.Node.Update

/-!
# Edits of snapshots

Every edit that a filter makes returns a canonical snapshot, and the changes it reports lead from
the children of the old snapshot to the children of the new one.
-/

namespace Replica

namespace Edit

/-- The new snapshot is canonical, and the changes lead to it. -/
structure Sound (old : Node) (edit : Edit) : Prop where
  canonical : edit.node.Canonical
  leads : Change.Leads old.child edit.changes edit.node.child

theorem Sound.unchanged
    {node : Node} (canonical : node.Canonical) :
    Sound node (unchanged node) :=
  ⟨canonical, .done fun _ _ => Setoid.refl _⟩

theorem leads_of_one
    {before after : Key → Node} {key : Key} {change : Change}
    (unreserved : key.isPriority = false)
    (accurate : change.Accurate key (before key) (after key))
    (same : ∀ other : Key, other.isPriority = false → other ≠ key →
      before other ≈ after other) :
    Change.Leads before [change] after := by
  refine .of_distinct (List.pairwise_singleton _ _) ?_ ?_
  · intro other member
    rw [List.mem_singleton.mp member]
    exact ⟨key, unreserved, accurate⟩
  · intro other otherUnreserved untouched
    refine same other otherUnreserved fun equality => ?_
    refine untouched change (List.mem_singleton_self change) ?_
    rw [accurate.key?_eq, equality]

theorem leads_of_two
    {before after : Key → Node} {first second : Key}
    {change further : Change} (differ : first ≠ second)
    (firstUnreserved : first.isPriority = false)
    (secondUnreserved : second.isPriority = false)
    (accurate : change.Accurate first (before first) (after first))
    (furtherAccurate :
      further.Accurate second (before second) (after second))
    (same : ∀ other : Key, other.isPriority = false →
      other ≠ first → other ≠ second → before other ≈ after other) :
    Change.Leads before [change, further] after := by
  refine .of_distinct ?_ ?_ ?_
  · refine List.pairwise_pair.mpr ?_
    rw [accurate.key?_eq, furtherAccurate.key?_eq]
    exact fun equality => differ (Option.some.inj equality)
  · intro other member
    rcases List.mem_cons.mp member with rfl | last
    · exact ⟨first, firstUnreserved, accurate⟩
    · rw [List.mem_singleton.mp last]
      exact ⟨second, secondUnreserved, furtherAccurate⟩
  · intro other otherUnreserved untouched
    refine same other otherUnreserved ?_ ?_
    · rintro rfl
      exact untouched change List.mem_cons_self accurate.key?_eq
    · rintro rfl
      exact untouched further
        (List.mem_cons_of_mem _ (List.mem_singleton_self further))
        furtherAccurate.key?_eq

/-! ## Replacing one child -/

theorem node_ofChild (snap : Node) (key : Key) (child : Node) :
    (ofChild snap key child).node =
      if (snap.child key).same child || snap.isLeaf && child.isEmpty then
        snap
      else snap.setChild key child := by
  unfold ofChild
  dsimp only
  cases (snap.child key).same child with
  | true => rfl
  | false => rfl

/-- A child is replaced in the snapshot as it would be in any node. -/
theorem node_ofChild_eq_setChild
    (snap child : Node) {key : Key} (unreserved : key.isPriority = false) :
    (ofChild snap key child).node = snap.setChild key child := by
  rw [node_ofChild]
  split
  · rename_i kept
    have result : snap.setChild key child = snap := by
      rcases Bool.or_eq_true_iff.mp kept with equal | leaf
      · exact Node.setChild_of_same unreserved equal
      · obtain ⟨isLeaf, noData⟩ := Bool.and_eq_true_iff.mp leaf
        exact Node.setChild_leaf isLeaf noData unreserved
    exact result.symm
  · rfl

theorem canonical_ofChild
    {snap child : Node} (canonical : snap.Canonical)
    (childCanonical : child.Canonical) (key : Key) :
    (ofChild snap key child).node.Canonical := by
  rw [node_ofChild]
  split
  · exact canonical
  · exact canonical.setChild childCanonical key

theorem child_ofChild_self
    {snap child : Node} (canonical : snap.Canonical)
    (childCanonical : child.Canonical)
    {key : Key} (unreserved : key.isPriority = false) :
    (ofChild snap key child).node.child key ≈ child := by
  rw [node_ofChild]
  split
  · rename_i kept
    rcases Bool.or_eq_true_iff.mp kept with equal | leaf
    · exact equal
    · obtain ⟨isLeaf, noData⟩ := Bool.and_eq_true_iff.mp leaf
      rw [Node.child_leaf isLeaf unreserved, childCanonical.eq_empty noData]
  · exact Node.child_setChild_self canonical childCanonical unreserved

@[simp]
theorem child_ofChild_of_ne
    {snap : Node} (canonical : snap.Canonical) (child : Node)
    {key other : Key} (unreserved : other.isPriority = false)
    (different : other ≠ key) :
    (ofChild snap key child).node.child other = snap.child other := by
  rw [node_ofChild]
  split
  · rfl
  · exact Node.child_setChild_of_ne canonical child unreserved different

theorem Sound.ofChild
    {snap child : Node} (canonical : snap.Canonical)
    (childCanonical : child.Canonical)
    {key : Key} (unreserved : key.isPriority = false) :
    Sound snap (ofChild snap key child) := by
  refine ⟨canonical_ofChild canonical childCanonical key, ?_⟩
  have result := child_ofChild_self canonical childCanonical unreserved
  have others (other : Key) (otherUnreserved : other.isPriority = false)
      (different : other ≠ key) :
      snap.child other ≈ (Edit.ofChild snap key child).node.child other := by
    rw [child_ofChild_of_ne canonical child otherUnreserved different]
  by_cases same : (snap.child key).same child = true
  · have nothing : (Edit.ofChild snap key child).changes = [] := by
      unfold Edit.ofChild
      dsimp only
      rw [if_pos same]
      rfl
    rw [nothing]
    refine .done fun other otherUnreserved => ?_
    by_cases here : other = key
    · rw [here]
      exact Setoid.trans (Node.equiv_iff.mpr same) (Setoid.symm result)
    · exact others other otherUnreserved here
  · have reported :
        (Edit.ofChild snap key child).changes =
          if child.isEmpty then
            (if snap.hasChild key then [.removed key (snap.child key)]
            else [])
          else if (snap.child key).isEmpty then [.added key child]
          else [.changed key child (snap.child key)] := by
      unfold Edit.ofChild
      dsimp only
      rw [if_neg same]
    have oldCanonical := canonical.child key
    rw [reported]
    by_cases noData : child.isEmpty = true
    · have present : (snap.child key).isEmpty = false := by
        rw [Bool.eq_false_iff]
        intro absent
        refine same ?_
        rw [oldCanonical.eq_empty absent, childCanonical.eq_empty noData]
        exact Node.same_refl _
      rw [if_pos noData,
        Node.hasChild_eq_not_isEmpty canonical unreserved, present]
      refine leads_of_one unreserved (.removed present ?_ (Setoid.refl _))
        others
      exact Setoid.trans result (Node.equiv_empty_of_isEmpty childCanonical noData)
    · have present :
          ((Edit.ofChild snap key child).node.child key).isEmpty = false := by
        rw [Node.isEmpty_congr result]
        simpa using noData
      rw [if_neg noData]
      by_cases absent : (snap.child key).isEmpty = true
      · rw [if_pos absent]
        exact leads_of_one unreserved
          (.added (Node.equiv_empty_of_isEmpty oldCanonical absent) present
            (Setoid.symm result)) others
      · rw [if_neg absent]
        exact leads_of_one unreserved
          (.changed (by simpa using absent) present (Setoid.symm result)
            (Setoid.refl _)) others

/-! ## Replacing the whole snapshot -/

private theorem key?_of_mem_removals
    {old new : Node} {change : Change} (member : change ∈ removals old new) :
    ∃ entry ∈ old.children, new.hasChild entry.1 = false ∧
      change = .removed entry.1 entry.2 := by
  obtain ⟨entry, kept, rfl⟩ := List.mem_map.mp member
  obtain ⟨entryMember, gone⟩ := List.mem_filter.mp kept
  exact ⟨entry, entryMember, by simpa using gone, rfl⟩

private theorem key?_of_mem_arrivals
    {old new : Node} {change : Change} (member : change ∈ arrivals old new) :
    ∃ entry ∈ new.children,
      ((old.child entry.1).isEmpty = true ∧
          change = .added entry.1 entry.2) ∨
        ((old.child entry.1).isEmpty = false ∧
          change = .changed entry.1 entry.2 (old.child entry.1)) := by
  obtain ⟨entry, entryMember, produced⟩ := List.mem_filterMap.mp member
  refine ⟨entry, entryMember, ?_⟩
  dsimp only at produced
  split at produced
  · rename_i absent
    cases produced
    exact Or.inl ⟨absent, rfl⟩
  · rename_i present
    split at produced
    · cases produced
    · cases produced
      exact Or.inr ⟨by simpa using present, rfl⟩

private theorem keys_distinct
    {node : Node} (canonical : node.Canonical) :
    node.children.Pairwise fun a b => a.1 ≠ b.1 := by
  refine canonical.children_ascending.imp fun order equality => ?_
  rw [equality, Std.ReflOrd.compare_self] at order
  cases order

theorem distinct_ofNode
    {old new : Node} (oldCanonical : old.Canonical)
    (newCanonical : new.Canonical) :
    (ofNode old new).changes.Pairwise fun a b => a.key? ≠ b.key? := by
  change (removals old new ++ arrivals old new).Pairwise _
  refine List.pairwise_append.mpr ⟨?_, ?_, ?_⟩
  · refine List.pairwise_map.mpr ?_
    refine ((keys_distinct oldCanonical).filter _).imp ?_
    intro first second differ equality
    exact differ (Option.some.inj equality)
  · refine List.pairwise_filterMap.mpr ?_
    refine (keys_distinct newCanonical).imp ?_
    intro first second differ change produced other otherProduced equality
    have named (entry : Key × Node) (result : Change)
        (from' : (let before := old.child entry.1
          if before.isEmpty then some (Change.added entry.1 entry.2)
          else if before.same entry.2 then none
          else some (.changed entry.1 entry.2 before)) = some result) :
        result.key? = some entry.1 := by
      dsimp only at from'
      split at from'
      · cases from'
        rfl
      · split at from'
        · cases from'
        · cases from'
          rfl
    rw [named first change produced, named second other otherProduced]
      at equality
    exact differ (Option.some.inj equality)
  · intro removal removalMember arrival arrivalMember equality
    obtain ⟨gone, _, absent, rfl⟩ := key?_of_mem_removals removalMember
    obtain ⟨come, comeMember, produced⟩ :=
      key?_of_mem_arrivals arrivalMember
    have sameKey : gone.1 = come.1 := by
      rcases produced with ⟨_, rfl⟩ | ⟨_, rfl⟩
      · exact Option.some.inj equality
      · exact Option.some.inj equality
    rw [sameKey, Node.hasChild_of_mem_children newCanonical comeMember]
      at absent
    cases absent

section

variable {old new : Node} (oldCanonical : old.Canonical)
  (newCanonical : new.Canonical)

include oldCanonical newCanonical

theorem accurate_ofNode :
    ∀ change ∈ (ofNode old new).changes,
      ∃ key : Key, key.isPriority = false ∧
        change.Accurate key (old.child key) (new.child key) := by
  intro change member
  rcases List.mem_append.mp member with removal | arrival
  · obtain ⟨entry, entryMember, gone, rfl⟩ := key?_of_mem_removals removal
    have unreserved := oldCanonical.unreserved_of_mem_children entryMember
    rw [Node.hasChild_eq_not_isEmpty newCanonical unreserved] at gone
    have emptied : (new.child entry.1).isEmpty = true := by
      simpa using gone
    refine ⟨entry.1, unreserved, .removed ?_ ?_ ?_⟩
    · rw [Node.child_of_mem_children oldCanonical entryMember]
      exact oldCanonical.nonempty_of_mem_children entryMember
    · exact Node.equiv_empty_of_isEmpty (newCanonical.child entry.1) emptied
    · rw [Node.child_of_mem_children oldCanonical entryMember]
  · obtain ⟨entry, entryMember, produced⟩ := key?_of_mem_arrivals arrival
    have unreserved := newCanonical.unreserved_of_mem_children entryMember
    have found := Node.child_of_mem_children newCanonical entryMember
    have present := newCanonical.nonempty_of_mem_children entryMember
    refine ⟨entry.1, unreserved, ?_⟩
    rw [found]
    rcases produced with ⟨absent, rfl⟩ | ⟨wasPresent, rfl⟩
    · exact .added
        (Node.equiv_empty_of_isEmpty (oldCanonical.child entry.1) absent)
        present (Setoid.refl _)
    · exact .changed wasPresent present (Setoid.refl _) (Setoid.refl _)

private theorem child_ofNode_of_untouched
    {key : Key} (unreserved : key.isPriority = false)
    (untouched : ∀ change ∈ (ofNode old new).changes,
      change.key? ≠ some key) :
    old.child key ≈ new.child key := by
  by_cases present : (new.child key).isEmpty = false
  · have member :=
      Node.mem_children_of_present newCanonical unreserved present
    by_cases same : (old.child key).same (new.child key) = true
    · exact same
    · by_cases absent : (old.child key).isEmpty = true
      · have arrived : Change.added key (new.child key) ∈
            (ofNode old new).changes := by
          refine List.mem_append_right _ (List.mem_filterMap.mpr ?_)
          exact ⟨_, member, if_pos absent⟩
        exact absurd rfl (untouched _ arrived)
      · have arrived :
            Change.changed key (new.child key) (old.child key) ∈
              (ofNode old new).changes := by
          refine List.mem_append_right _ (List.mem_filterMap.mpr ?_)
          refine ⟨_, member, ?_⟩
          dsimp only
          rw [if_neg absent, if_neg same]
        exact absurd rfl (untouched _ arrived)
  · have gone : (new.child key).isEmpty = true := by
      simpa using present
    by_cases absent : (old.child key).isEmpty = true
    · rw [(oldCanonical.child key).eq_empty absent,
        (newCanonical.child key).eq_empty gone]
    · have member :=
        Node.mem_children_of_present oldCanonical unreserved
          (by simpa using absent)
      have removed : Change.removed key (old.child key) ∈
          (ofNode old new).changes := by
        refine List.mem_append_left _ (List.mem_map.mpr ?_)
        refine ⟨_, List.mem_filter.mpr ⟨member, ?_⟩, rfl⟩
        dsimp only
        rw [Node.hasChild_eq_not_isEmpty newCanonical unreserved, gone]
        rfl
      exact absurd rfl (untouched _ removed)

theorem Sound.ofNode : Sound old (ofNode old new) :=
  ⟨newCanonical, .of_distinct (distinct_ofNode oldCanonical newCanonical)
    (accurate_ofNode oldCanonical newCanonical)
    fun _ => child_ofNode_of_untouched oldCanonical newCanonical⟩

end

end Edit

end Replica
