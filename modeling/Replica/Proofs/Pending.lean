import Replica.Pending
import Replica.Proofs.Overlay.Apply
import Replica.Proofs.Overlay.Turn

/-!
# Pending writes

The overlay of the pending writes is made of the single nodes that the visible writes put in
place. A write that is not seen from a location can come and go there without a trace.
-/

namespace Replica

namespace Overlay

/-- The writes of an overlay below a location, seen from above. -/
def writesBelow (path : Path) (nodes : Overlay) : List (Path × Node) :=
  nodes.writes.map fun write => (path ++ write.1, write.2)

theorem Valid.canonical_of_mem_writesBelow
    {nodes : Overlay} (valid : nodes.Valid) (path : Path) :
    ∀ write ∈ nodes.writesBelow path, write.2.Canonical := by
  intro write member
  obtain ⟨below, belowMember, rfl⟩ := List.mem_map.mp member
  exact valid.canonical below belowMember

theorem Valid.ascending_writesBelow
    {nodes : Overlay} (valid : nodes.Valid) (path : Path) :
    Sorted.Ascending (nodes.writesBelow path) := by
  refine List.pairwise_map.mpr (valid.ascending.imp fun order => ?_)
  rw [Path.compare_append]
  exact order

/-- No two writes of an overlay lie above one another. -/
theorem Valid.apart_of_mem_writesBelow
    {nodes : Overlay} (valid : nodes.Valid) (path : Path) :
    ∀ upper ∈ nodes.writesBelow path, ∀ lower ∈ nodes.writesBelow path,
      Path.contains upper.1 lower.1 = true → upper = lower := by
  intro upper upperMember lower lowerMember contained
  obtain ⟨high, highMember, rfl⟩ := List.mem_map.mp upperMember
  obtain ⟨low, lowMember, rfl⟩ := List.mem_map.mp lowerMember
  rw [Path.contains_append_append] at contained
  rw [valid.eq_of_contains highMember lowMember contained]

theorem addBelow_eq_adds (overlay : Overlay) (path : Path) (nodes : Overlay) :
    overlay.addBelow path nodes = overlay.adds (nodes.writesBelow path) := by
  unfold addBelow adds writesBelow
  rw [List.foldl_map]

@[simp]
theorem writesBelow_ofNode (path : Path) (node : Node) :
    (ofNode node).writesBelow path = [(path, node)] := by
  unfold writesBelow
  rw [writes_ofNode, List.map_singleton, List.append_nil]

end Overlay

/-- The single nodes that a write puts in place. -/
def Write.writes (write : Write) : List (Path × Node) :=
  write.overlay.writesBelow write.path

theorem Write.canonical_of_mem_writes
    {write : Write} (valid : write.overlay.Valid) :
    ∀ single ∈ write.writes, single.2.Canonical :=
  valid.canonical_of_mem_writesBelow write.path

namespace Overlay

theorem addWrite_eq_adds (overlay : Overlay) (write : Write) :
    overlay.addWrite write = overlay.adds write.writes := by
  obtain ⟨id, path, payload, visible⟩ := write
  cases payload with
  | overwrite node =>
      change overlay.add path node = overlay.adds ((ofNode node).writesBelow path)
      rw [writesBelow_ofNode]
      rfl
  | merge nodes => exact addBelow_eq_adds overlay path nodes

private theorem layer_append (writes : List Write) (write : Write) :
    layer (writes ++ [write]) = (layer writes).addWrite write :=
  List.foldl_append

/-- An overlay of writes is an overlay of the single nodes that they put in place. -/
theorem layer_eq_adds (writes : List Write) :
    layer writes = empty.adds (writes.flatMap Write.writes) := by
  have general (start : Overlay) :
      writes.foldl addWrite start =
        start.adds (writes.flatMap Write.writes) := by
    induction writes generalizing start with
    | nil => rfl
    | cons write rest inductionHypothesis =>
        rw [List.foldl_cons, List.flatMap_cons, adds_append,
          inductionHypothesis, addWrite_eq_adds]
  exact general empty

private theorem canonical_of_mem_flatMap
    {writes : List Write}
    (valid : ∀ write ∈ writes, write.overlay.Valid) :
    ∀ single ∈ writes.flatMap Write.writes, single.2.Canonical := by
  intro single member
  obtain ⟨write, writeMember, singleMember⟩ := List.mem_flatMap.mp member
  exact Write.canonical_of_mem_writes (valid write writeMember) single
    singleMember

private theorem Valid.layer
    {writes : List Write}
    (valid : ∀ write ∈ writes, write.overlay.Valid) :
    Valid (layer writes) := by
  rw [layer_eq_adds]
  exact Valid.empty.adds (canonical_of_mem_flatMap valid)

end Overlay

namespace Pending

/-- The overlay is the one that the visible writes give in order. -/
def Layered (pending : Pending) : Prop :=
  pending.overlay = .layer (pending.writes.filter (·.visible))

/-- All writes are valid, and the overlay is the one that the visible writes give in order. -/
structure Sound (pending : Pending) : Prop where
  valid : ∀ write ∈ pending.writes, write.overlay.Valid
  layered :
    pending.overlay = .layer (pending.writes.filter (·.visible))

theorem Sound.overlay_valid
    {pending : Pending} (sound : pending.Sound) :
    pending.overlay.Valid := by
  rw [sound.layered]
  exact Overlay.Valid.layer fun write member =>
    sound.valid write (List.mem_filter.mp member).1

def visibleWrites (pending : Pending) : List (Path × Node) :=
  (pending.writes.filter (·.visible)).flatMap Write.writes

theorem Sound.overlay_eq
    {pending : Pending} (sound : pending.Sound) :
    pending.overlay = Overlay.empty.adds pending.visibleWrites := by
  rw [sound.layered, Overlay.layer_eq_adds]
  rfl

theorem Sound.canonical_of_mem_visibleWrites
    {pending : Pending} (sound : pending.Sound) :
    ∀ write ∈ pending.visibleWrites, write.2.Canonical :=
  Overlay.canonical_of_mem_flatMap fun write member =>
    sound.valid write (List.mem_filter.mp member).1

/-- A visible write covers every location at or below it. -/
theorem isSome_node?_of_covered
    {pending : Pending} (sound : pending.Sound) {path : Path}
    {write : Path × Node} (member : write ∈ pending.visibleWrites)
    (above : Path.contains write.1 path = true) :
    (pending.overlay.node? path).isSome = true := by
  rw [sound.overlay_eq, Overlay.isSome_node?_adds Overlay.Valid.empty
    sound.canonical_of_mem_visibleWrites, Bool.or_eq_true]
  exact Or.inr (List.any_eq_true.mpr ⟨write, member, above⟩)

/-! ## Adding a write -/

theorem check_of_stale
    {pending : Pending} {id last : WriteId}
    (isLast : pending.last? = some last) (notAbove : id ≤ last) :
    pending.check id = .error (.staleWrite last id) := by
  simp [check, isLast, notAbove, throw, throwThe, MonadExceptOf.throw, bind,
    Except.bind]

/-- An id above every earlier one is refused only where there is no room. -/
theorem check_of_above
    {pending : Pending} {id : WriteId}
    (above : ∀ last, pending.last? = some last → last < id) :
    pending.check id =
      match pending.limit? with
      | some limit =>
          if limit ≤ pending.writes.length then
            .error (.tooManyPending limit)
          else .ok ()
      | none => .ok () := by
  unfold check
  cases isLast : pending.last? with
  | none =>
      cases pending.limit? with
      | none => rfl
      | some limit =>
          dsimp only
          split
          · rfl
          · rfl
  | some last =>
      dsimp only
      rw [if_neg (Nat.not_le.mpr (above last isLast))]
      cases pending.limit? with
      | none => rfl
      | some limit =>
          dsimp only
          split
          · rfl
          · rfl

theorem add_eq_ok
    {pending next : Pending} {write : Write}
    (added : pending.add write = .ok next) :
    next.writes = pending.writes ++ [write] ∧
      next.overlay =
        if write.visible then pending.overlay.addWrite write
        else pending.overlay := by
  unfold add at added
  cases checked : pending.check write.id with
  | error failure =>
      rw [checked] at added
      cases added
  | ok _ =>
      rw [checked] at added
      cases added
      exact ⟨rfl, rfl⟩

theorem mem_writes_of_add
    {pending next : Pending} {new write : Write}
    (added : pending.add new = .ok next) (member : write ∈ next.writes) :
    write ∈ pending.writes ∨ write = new := by
  rw [(add_eq_ok added).1, List.mem_append, List.mem_singleton] at member
  exact member

theorem Layered.add
    {pending next : Pending} (layered : pending.Layered) {write : Write}
    (added : pending.add write = .ok next) : next.Layered := by
  obtain ⟨writes, overlay⟩ := add_eq_ok added
  unfold Layered at layered ⊢
  rw [overlay, writes, List.filter_append]
  cases visible : write.visible with
  | true =>
      have kept : [write].filter (·.visible) = [write] := by
        rw [List.filter_cons_of_pos visible]
        rfl
      rw [if_pos rfl, kept, Overlay.layer_append, layered]
  | false =>
      have dropped : [write].filter (·.visible) = [] := by
        rw [List.filter_cons_of_neg (by simp [visible])]
        rfl
      rw [if_neg (by simp), dropped, List.append_nil, layered]

theorem Sound.add
    {pending next : Pending} (sound : pending.Sound)
    {write : Write} (valid : write.overlay.Valid)
    (added : pending.add write = .ok next) :
    next.Sound := by
  refine ⟨fun other member => ?_, Layered.add sound.layered added⟩
  rcases mem_writes_of_add added member with old | rfl
  · exact sound.valid other old
  · exact valid

/-- A visible write comes on top of the overlay, a hidden one leaves it alone. -/
theorem turns_of_add
    {pending next : Pending} {write : Write}
    (added : pending.add write = .ok next) :
    Overlay.Turns pending.overlay next.overlay write.writes := by
  obtain ⟨_, overlay⟩ := add_eq_ok added
  split at overlay
  · rw [Overlay.addWrite_eq_adds] at overlay
    exact .added overlay
  · exact .kept overlay

/-! ## Removing a write -/

theorem remove_eq_ok
    {pending next : Pending} {id : WriteId} {write : Write}
    (removed : pending.remove id = .ok (write, next)) :
    ∃ before after : List Write,
      pending.writes = before ++ write :: after ∧
        next.writes = before ++ after ∧
          next.overlay =
            if write.visible then
              .layer (next.writes.filter (·.visible))
            else pending.overlay := by
  unfold remove at removed
  cases found : pending.writes.find? (·.id == id) with
  | none =>
      rw [found] at removed
      cases removed
  | some first =>
      rw [found] at removed
      cases removed
      obtain ⟨isFirst, before, after, split, earlier⟩ :=
        List.find?_eq_some_iff_append.mp found
      refine ⟨before, after, split, ?_, rfl⟩
      have others :
          pending.writes.eraseP (·.id == id) = before ++ after := by
        rw [split, List.eraseP_append_right]
        · rw [List.eraseP_cons, isFirst, cond_true]
        · intro other member
          simpa using earlier other member
      exact others

theorem last?_of_remove
    {pending next : Pending} {id : WriteId} {write : Write}
    (removed : pending.remove id = .ok (write, next)) :
    next.last? = pending.last? := by
  unfold remove at removed
  split at removed
  · cases removed
  · cases removed
    rfl

/-- A write is removed unless it is not pending. -/
theorem remove_eq (pending : Pending) (id : WriteId) :
    if pending.writes.any (·.id == id) then
      ∃ write next, pending.remove id = .ok (write, next) ∧
        next.last? = pending.last? ∧ next.limit? = pending.limit?
    else pending.remove id = .error (.unknownWrite id) := by
  unfold remove
  cases found : pending.writes.find? (·.id == id) with
  | none =>
      have absent : pending.writes.any (·.id == id) = false := by
        rw [List.any_eq_false]
        exact List.find?_eq_none.mp found
      rw [absent, if_neg Bool.false_ne_true]
  | some write =>
      have present : pending.writes.any (·.id == id) = true :=
        List.any_eq_true.mpr ⟨write, List.mem_of_find?_eq_some found,
          (List.find?_eq_some_iff_append.mp found).1⟩
      rw [present, if_pos rfl]
      exact ⟨_, _, rfl, rfl, rfl⟩

/-- The oldest write can be removed. -/
theorem remove_oldest
    {pending : Pending} {oldest : Write} {later : List Write}
    (queue : pending.writes = oldest :: later) :
    ∃ next, pending.remove oldest.id = .ok (oldest, next) ∧
      next.writes = later := by
  have found : pending.writes.find? (·.id == oldest.id) = some oldest := by
    rw [queue]
    exact List.find?_cons_of_pos (beq_self_eq_true oldest.id)
  unfold remove
  rw [found]
  refine ⟨_, rfl, ?_⟩
  dsimp only
  rw [queue]
  exact List.eraseP_cons_of_pos (beq_self_eq_true oldest.id)

theorem mem_writes_of_remove
    {pending next : Pending} {id : WriteId} {removedWrite write : Write}
    (removed : pending.remove id = .ok (removedWrite, next))
    (member : write ∈ next.writes) : write ∈ pending.writes := by
  obtain ⟨before, after, split, others, _⟩ := remove_eq_ok removed
  rw [others, List.mem_append] at member
  rw [split, List.mem_append, List.mem_cons]
  exact member.imp_right Or.inr

theorem find?_of_remove
    {pending next : Pending} {id : WriteId} {write : Write}
    (removed : pending.remove id = .ok (write, next)) :
    pending.writes.find? (·.id == id) = some write := by
  unfold remove at removed
  cases found : pending.writes.find? (·.id == id) with
  | none =>
      rw [found] at removed
      cases removed
  | some first =>
      rw [found] at removed
      cases removed
      rfl

theorem find?_of_remove_error
    {pending : Pending} {id : WriteId} {failure : SyncError}
    (failed : pending.remove id = .error failure) :
    pending.writes.find? (·.id == id) = none := by
  unfold remove at failed
  cases found : pending.writes.find? (·.id == id) with
  | none => rfl
  | some first =>
      rw [found] at failed
      cases failed

theorem Layered.remove
    {pending next : Pending} (layered : pending.Layered)
    {id : WriteId} {write : Write}
    (removed : pending.remove id = .ok (write, next)) : next.Layered := by
  obtain ⟨before, after, split, others, overlay⟩ := remove_eq_ok removed
  unfold Layered at layered ⊢
  rw [overlay]
  cases visible : write.visible with
  | true => rw [if_pos rfl]
  | false =>
      rw [if_neg (by simp), layered, split, others, List.filter_append,
        List.filter_append, List.filter_cons_of_neg (by simp [visible])]

theorem Sound.remove
    {pending next : Pending} (sound : pending.Sound)
    {id : WriteId} {write : Write}
    (removed : pending.remove id = .ok (write, next)) :
    next.Sound :=
  ⟨fun other member =>
      sound.valid other (mem_writes_of_remove removed member),
    Layered.remove sound.layered removed⟩

theorem Sound.valid_of_remove
    {pending next : Pending} (sound : pending.Sound)
    {id : WriteId} {write : Write}
    (removed : pending.remove id = .ok (write, next)) :
    write.overlay.Valid := by
  obtain ⟨before, after, split, _, _⟩ := remove_eq_ok removed
  refine sound.valid write ?_
  rw [split]
  exact List.mem_append_right before List.mem_cons_self

/-- A visible write is taken out of the overlay, a hidden one leaves it alone. -/
theorem turns_of_remove
    {pending next : Pending} (sound : pending.Sound)
    {id : WriteId} {write : Write}
    (removed : pending.remove id = .ok (write, next)) :
    Overlay.Turns pending.overlay next.overlay write.writes := by
  obtain ⟨before, after, split, others, overlay⟩ := remove_eq_ok removed
  cases visible : write.visible with
  | false =>
      rw [if_neg (by simp [visible])] at overlay
      exact .kept overlay
  | true =>
      rw [if_pos visible, others, List.filter_append,
        Overlay.layer_eq_adds, List.flatMap_append] at overlay
      have was := sound.layered
      rw [split, List.filter_append, List.filter_cons_of_pos visible,
        Overlay.layer_eq_adds, List.flatMap_append, List.flatMap_cons,
        ← List.append_assoc] at was
      refine .removed ?_ ?_ was overlay
      · refine Overlay.canonical_of_mem_flatMap fun other member => ?_
        refine sound.valid other ?_
        rw [split]
        exact List.mem_append_left _ (List.mem_filter.mp member).1
      · refine Overlay.canonical_of_mem_flatMap fun other member => ?_
        refine sound.valid other ?_
        rw [split]
        exact List.mem_append_right _
          (List.mem_cons_of_mem _ (List.mem_filter.mp member).1)

end Pending

end Replica
