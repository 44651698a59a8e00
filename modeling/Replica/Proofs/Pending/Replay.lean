import Replica.Proofs.Overlay.Data
import Replica.Proofs.Vantage

/-!
# Pending writes made again

Whatever calls have been made, the overlay stands for the visible writes that are still pending,
in the order of their ids: over given data it shows what making them one after the other gives.
Deletions and priorities are the exception. A deletion may empty what surrounds it, and with it
goes a priority; and over a leaf it depends on the moment what there is to delete.
-/

namespace Replica

theorem Path.Writable.unreserved
    {path : Path} (writable : path.Writable)
    (notPriority : Overlay.isPriorityPath path = false) :
    path.Unreserved := by
  intro key member
  rcases List.eq_nil_or_concat path with rfl | ⟨upper, last, rfl⟩
  · cases member
  · rw [List.concat_eq_append] at *
    rcases List.mem_append.mp member with above | here
    · exact writable key (by simpa using above)
    · rw [List.mem_singleton.mp here]
      simpa [Overlay.isPriorityPath] using notPriority

namespace Pending

/-! ## Calls on the pending writes -/

inductive Act where
  | overwrite (id : WriteId) (path : Path) (node : Node) (visible : Bool)
  | merge (id : WriteId) (path : Path) (nodes : Overlay)
  | remove (id : WriteId)

namespace Act

def Valid : Act → Prop
  | .overwrite _ _ node _ => node.Canonical
  | .merge _ _ nodes => nodes.Valid
  | .remove _ => True

/-- What a call leaves of the writes made so far. -/
def leaves (writes : List Write) : Act → List Write
  | .overwrite id path node visible => writes ++ [⟨id, path, .overwrite node, visible⟩]
  | .merge id path nodes => writes ++ [⟨id, path, .merge nodes, true⟩]
  | .remove id => writes.filter (·.id != id)

end Act

def act (pending : Pending) : Act → Except SyncError Pending
  | .overwrite id path node visible => pending.addOverwrite id path node visible
  | .merge id path nodes => pending.addMerge id path nodes
  | .remove id => (pending.remove id).map (·.2)

/-- The writes are in the order of their ids, and none is above the last id taken. -/
structure Ranked (pending : Pending) : Prop where
  ascending : (pending.writes.map (·.id)).Pairwise (· < ·)
  last : ∀ write ∈ pending.writes, ∃ last,
    pending.last? = some last ∧ write.id ≤ last

theorem lt_of_check
    {pending : Pending} {id : WriteId}
    (checked : pending.check id = .ok ()) {last : WriteId}
    (isLast : pending.last? = some last) : last < id := by
  by_contra stale
  rw [check_of_stale isLast (Nat.le_of_not_lt stale)] at checked
  cases checked

/-- An added write has an id above every earlier one. -/
theorem last_lt_of_add
    {pending next : Pending} {write : Write}
    (added : pending.add write = .ok next) :
    next.last? = some write.id ∧
      ∀ last, pending.last? = some last → last < write.id := by
  unfold add at added
  cases checked : pending.check write.id with
  | error failure =>
      rw [checked] at added
      cases added
  | ok _ =>
      rw [checked] at added
      cases added
      exact ⟨rfl, fun last isLast => lt_of_check checked isLast⟩

theorem Ranked.add
    {pending next : Pending} (ranked : pending.Ranked) {write : Write}
    (added : pending.add write = .ok next) : next.Ranked := by
  obtain ⟨isLast, above⟩ := last_lt_of_add added
  have writes := (add_eq_ok added).1
  have below : ∀ old ∈ pending.writes, old.id < write.id := by
    intro old member
    obtain ⟨last, oldLast, bounded⟩ := ranked.last old member
    exact Nat.lt_of_le_of_lt bounded (above last oldLast)
  refine ⟨?_, ?_⟩
  · rw [writes, List.map_append, List.pairwise_append]
    refine ⟨ranked.ascending, List.pairwise_singleton _ _, ?_⟩
    simpa using below
  · intro other member
    refine ⟨write.id, isLast, ?_⟩
    rcases mem_writes_of_add added member with old | rfl
    · exact Nat.le_of_lt (below other old)
    · exact Nat.le_refl _

theorem Ranked.remove
    {pending next : Pending} (ranked : pending.Ranked)
    {id : WriteId} {write : Write}
    (removed : pending.remove id = .ok (write, next)) :
    next.Ranked ∧ next.writes = pending.writes.filter (·.id != id) := by
  obtain ⟨before, after, split, writes, _⟩ := remove_eq_ok removed
  have isRemoved : write.id = id := by
    simpa using List.find?_some (find?_of_remove removed)
  have ascending := ranked.ascending
  rw [split, List.map_append, List.map_cons, List.pairwise_append,
    List.pairwise_cons] at ascending
  obtain ⟨beforeAscending, ⟨afterAbove, afterAscending⟩, across⟩ := ascending
  have keptBefore : before.filter (·.id != id) = before := by
    refine List.filter_eq_self.mpr fun other member => ?_
    have isBelow := across other.id (List.mem_map_of_mem member) write.id
      List.mem_cons_self
    exact bne_iff_ne.mpr (Nat.ne_of_lt (isRemoved ▸ isBelow))
  have keptAfter : after.filter (·.id != id) = after := by
    refine List.filter_eq_self.mpr fun other member => ?_
    have isAbove := afterAbove other.id (List.mem_map_of_mem member)
    exact bne_iff_ne.mpr (Nat.ne_of_gt (isRemoved ▸ isAbove))
  refine ⟨⟨?_, ?_⟩, ?_⟩
  · rw [writes, List.map_append, List.pairwise_append]
    exact ⟨beforeAscending, afterAscending, fun upper upperMember lower
      lowerMember => across upper upperMember lower
        (List.mem_cons_of_mem _ lowerMember)⟩
  · intro other member
    obtain ⟨last, isLast, bounded⟩ :=
      ranked.last other (mem_writes_of_remove removed member)
    exact ⟨last, (last?_of_remove removed).trans isLast, bounded⟩
  · rw [writes, split, List.filter_append, List.filter_cons_of_neg
      (by simpa using isRemoved), keptBefore, keptAfter]

/-- The overlay is that of the writes, which are in the order of their ids. -/
structure Queued (pending : Pending) : Prop where
  sound : pending.Sound
  ranked : pending.Ranked

theorem queued_empty (limit? : Option Nat) :
    Queued { limit? := limit? } where
  sound := ⟨fun _ member => absurd member List.not_mem_nil, rfl⟩
  ranked :=
    ⟨List.Pairwise.nil, fun _ member => absurd member List.not_mem_nil⟩

private theorem Queued.add
    {pending next : Pending} (queued : pending.Queued)
    {write : Write} (valid : write.overlay.Valid)
    (added : pending.add write = .ok next) :
    next.Queued ∧ next.writes = pending.writes ++ [write] :=
  ⟨⟨queued.sound.add valid added, queued.ranked.add added⟩,
    (add_eq_ok added).1⟩

private theorem Queued.remove
    {pending next : Pending} (queued : pending.Queued)
    {id : WriteId} {write : Write}
    (removed : pending.remove id = .ok (write, next)) :
    next.Queued ∧ next.writes = pending.writes.filter (·.id != id) := by
  obtain ⟨ranked, writes⟩ := queued.ranked.remove removed
  exact ⟨⟨queued.sound.remove removed, ranked⟩, writes⟩

/-- A call that succeeds keeps the writes in order and does to them what it says. -/
theorem Queued.act
    {pending next : Pending} (queued : pending.Queued)
    {act : Act} (valid : act.Valid) (done : pending.act act = .ok next) :
    next.Queued ∧ next.writes = act.leaves pending.writes := by
  cases act with
  | overwrite id path node visible =>
      exact queued.add (Overlay.Valid.ofNode valid) done
  | merge id path nodes => exact queued.add valid done
  | remove id =>
      change (pending.remove id).map (·.2) = .ok next at done
      cases removed : pending.remove id with
      | error failure =>
          rw [removed] at done
          cases done
      | ok answer =>
          rw [removed] at done
          cases done
          exact queued.remove removed

private theorem Queued.acts
    {pending next : Pending} (queued : pending.Queued)
    {acts : List Act} (valid : ∀ act ∈ acts, act.Valid)
    (done : acts.foldlM Pending.act pending = .ok next) :
    next.Queued ∧ next.writes = acts.foldl Act.leaves pending.writes := by
  induction acts generalizing pending with
  | nil =>
      cases done
      exact ⟨queued, rfl⟩
  | cons first rest inductionHypothesis =>
      obtain ⟨firstValid, othersValid⟩ := List.forall_mem_cons.mp valid
      rw [List.foldlM_cons] at done
      cases stepped : pending.act first with
      | error failure =>
          rw [stepped] at done
          cases done
      | ok middle =>
          rw [stepped] at done
          obtain ⟨middleQueued, middleWrites⟩ :=
            queued.act firstValid stepped
          rw [List.foldl_cons, ← middleWrites]
          exact inductionHypothesis middleQueued othersValid done

/-! ## The overlay and its writes -/

/-- Data without a leaf strictly above any written location, priorities apart, look alike under the
overlay and after the writes. -/
theorem dataEq_laidOver_root
    {pending : Pending} (sound : pending.Sound)
    {data : Node} (canonical : data.Canonical)
    (admits : ∀ write ∈ pending.visibleWrites, data.Admits write.1) :
    (pending.laidOver [] data).dataEq
      (data.lay pending.visibleWrites) = true := by
  unfold laidOver
  rw [Overlay.restrict_root, sound.overlay_eq]
  exact Overlay.dataEq_apply_adds Overlay.Valid.empty
    (fun _ member => absurd member List.not_mem_nil)
    sound.canonical_of_mem_visibleWrites admits canonical

private theorem laidOver_root_equiv
    {pending : Pending} (sound : pending.Sound)
    {data : Node} (canonical : data.Canonical)
    (fills : ∀ write ∈ pending.visibleWrites, Overlay.Fills write) :
    pending.laidOver [] data ≈ data.lay pending.visibleWrites := by
  unfold laidOver
  rw [Overlay.restrict_root, sound.overlay_eq]
  exact Overlay.apply_adds Overlay.Valid.empty
    (fun _ member => absurd member List.not_mem_nil)
    sound.canonical_of_mem_visibleWrites fills canonical

/-- After any calls that succeed, the writes still pending are those made and not removed, in the
order of their ids. Over given data the root shows what making the visible ones again gives: the
same data where no leaf is strictly above a written location, priorities apart, and the same node
where nothing is deleted and no written location goes through a priority.

It is not enough that no written location ends at a priority. A merge at a priority can write
below it; such a write sets the priority all the same, but the overlay does not take it for one
and lays it in the order of the paths, before the data it should meet. -/
theorem node?_root_replays
    (limit? : Option Nat) (acts : List Act)
    (valid : ∀ act ∈ acts, act.Valid) {pending : Pending}
    (done : acts.foldlM act { limit? := limit? } = .ok pending)
    {data : Node} (canonical : data.Canonical) :
    pending.writes = acts.foldl Act.leaves [] ∧
      (pending.writes.map (·.id)).Pairwise (· < ·) ∧
      ∃ shown, pending.node? [] (some data) false = some shown ∧
        ((∀ write ∈ pending.visibleWrites, data.Admits write.1) →
          shown.dataEq (data.lay pending.visibleWrites) = true) ∧
        ((∀ write ∈ pending.visibleWrites,
            write.1.Unreserved ∧ write.2.isEmpty = false) →
          shown.same (data.lay pending.visibleWrites) = true) := by
  obtain ⟨queued, writes⟩ := (queued_empty limit?).acts valid done
  refine ⟨writes, queued.ranked.ascending, pending.laidOver [] data, ?_, ?_,
    ?_⟩
  · rw [node?_eq queued.sound]
    rfl
  · exact dataEq_laidOver_root queued.sound canonical
  · intro plain
    refine laidOver_root_equiv queued.sound canonical fun write member => ?_
    obtain ⟨unreserved, present⟩ := plain write member
    exact ⟨unreserved, fun _ => present⟩

/-- A deletion beside other data and a priority, with one write taken back. -/
def deletionAndPriority : List Act :=
  [.overwrite 1 [⟨"a"⟩, ⟨"x"⟩] (.ofScalar (.bool true)) true,
    .overwrite 2 [⟨"b"⟩] (.ofScalar (.text "t")) true,
    .merge 3 [⟨"a"⟩] (.ofWrites
      [([.priority], .ofScalar (.text "p")), ([⟨"x"⟩], .empty)]),
    .remove 2]

/-- Two writes that turn a leaf into a branch, one within the other. -/
def belowLeaf : List Act :=
  [.overwrite 1 [⟨"a"⟩, ⟨"x"⟩] (.ofScalar (.bool true)) true,
    .overwrite 4 [⟨"a"⟩, ⟨"x"⟩, ⟨"y"⟩] (.ofScalar (.bool false)) true]

theorem node?_root_replays_deletion_and_leaf :
    let branch := Node.branch [(⟨"a"⟩, .branch
      [(⟨"z"⟩, .ofScalar (.bool true))] none)] none
    let leaf := Node.leaf (.bool true) (some (.text "q"))
    (∃ pending shown,
      deletionAndPriority.foldlM act { limit? := none } = .ok pending ∧
        pending.writes.map (·.id) = [1, 3] ∧
        pending.node? [] (some branch) false = some shown ∧
        shown.dataEq (branch.lay pending.visibleWrites) = true) ∧
      ∃ pending shown,
        belowLeaf.foldlM act { limit? := some 2 } = .ok pending ∧
          pending.node? [] (some leaf) false = some shown ∧
          shown.same (leaf.lay pending.visibleWrites) = true := by
  intro branch leaf
  constructor
  · obtain ⟨pending, done⟩ : ∃ pending,
        deletionAndPriority.foldlM act { limit? := none } = .ok pending :=
      ⟨_, rfl⟩
    have valid : ∀ act ∈ deletionAndPriority, act.Valid := by
      have nodes : (Overlay.ofWrites
          [([.priority], .ofScalar (.text "p")), ([⟨"x"⟩], .empty)]).Valid :=
        Overlay.Valid.ofWrites (by
          simp [Node.Canonical.ofScalar, Node.Canonical.empty])
      simp [deletionAndPriority, Act.Valid, Node.Canonical.ofScalar, nodes]
    have canonical : branch.Canonical :=
      Node.Canonical.empty.setDescendant
        (Node.Canonical.ofScalar (.bool true)) [⟨"a"⟩, ⟨"z"⟩]
    obtain ⟨writes, _, shown, isShown, sameData, _⟩ :=
      node?_root_replays none deletionAndPriority valid done canonical
    refine ⟨pending, shown, done, by rw [writes]; rfl, isShown, sameData ?_⟩
    have visible : pending.visibleWrites =
        [([⟨"a"⟩, ⟨"x"⟩], .ofScalar (.bool true)),
          ([⟨"a"⟩, .priority], .ofScalar (.text "p")),
          ([⟨"a"⟩, ⟨"x"⟩], .empty)] := by
      rw [visibleWrites, writes]
      rfl
    have below : branch.Admits [⟨"a"⟩, ⟨"x"⟩] :=
      .cons rfl (.cons rfl (Node.admits_root _))
    have priority : branch.Admits [⟨"a"⟩, .priority] :=
      .cons rfl (.cons rfl (Node.admits_root _))
    simp [visible, below, priority]
  · obtain ⟨pending, done⟩ : ∃ pending,
        belowLeaf.foldlM act { limit? := some 2 } = .ok pending :=
      ⟨_, rfl⟩
    have valid : ∀ act ∈ belowLeaf, act.Valid := by
      simp [belowLeaf, Act.Valid, Node.Canonical.ofScalar]
    obtain ⟨writes, _, shown, isShown, _, same⟩ :=
      node?_root_replays (some 2) belowLeaf valid done
        (Node.Canonical.leaf (.bool true) (some (.text "q")))
    refine ⟨pending, shown, done, isShown, same ?_⟩
    have visible : pending.visibleWrites =
        [([⟨"a"⟩, ⟨"x"⟩], .ofScalar (.bool true)),
          ([⟨"a"⟩, ⟨"x"⟩, ⟨"y"⟩], .ofScalar (.bool false))] := by
      rw [visibleWrites, writes]
      rfl
    simp [visible, Path.Unreserved, Key.isPriority, Key.priority,
      Node.ofScalar, Node.isEmpty]

/-- Data, and then a merge at the priority of the root that writes below it. -/
def belowPriority : List Act :=
  [.overwrite 1 [⟨"a"⟩] (.ofScalar (.bool true)) true,
    .merge 2 [.priority] (.ofWrites [([⟨"x"⟩], .ofScalar (.text "p"))])]

/-- Made in order, the write below the priority meets data and sets the priority. The overlay lays
it first, and there is nothing yet that could have one. -/
theorem node?_root_misses_priority :
    ∃ pending shown,
      (∀ act ∈ belowPriority, act.Valid) ∧
        belowPriority.foldlM act { limit? := none } = .ok pending ∧
        pending.visibleWrites.map (·.1) =
          [[⟨"a"⟩], [.priority, ⟨"x"⟩]] ∧
        (∀ write ∈ pending.visibleWrites,
          Overlay.isPriorityPath write.1 = false ∧
            write.2.isEmpty = false) ∧
        pending.node? [] (some .empty) false = some shown ∧
        shown.priority? = none ∧
        (Node.empty.lay pending.visibleWrites).priority? =
          some (.text "p") ∧
        shown.same (Node.empty.lay pending.visibleWrites) = false := by
  have nodes : (Overlay.ofWrites
      [([⟨"x"⟩], .ofScalar (.text "p"))]).Valid :=
    Overlay.Valid.ofWrites (by simp [Node.Canonical.ofScalar])
  have valid : ∀ act ∈ belowPriority, act.Valid := by
    simp [belowPriority, Act.Valid, Node.Canonical.ofScalar, nodes]
  exact ⟨_, _, valid, rfl, by decide, by decide, rfl, rfl, rfl, by decide⟩

end Pending

end Replica
