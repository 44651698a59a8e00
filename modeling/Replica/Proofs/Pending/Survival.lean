import Replica.Proofs.Pending.Replay

/-!
# Writes that survive

A call on the pending writes may be refused, and is then as if it had not been made. After any
calls, refused ones among them, the writes and their overlay are those that the surviving calls
alone would give: the ones that added a write which was not removed later. What was folded into a
write that is gone stands on its own again.
-/

namespace Replica.Pending

namespace Act

def write? : Act → Option Write
  | .overwrite id path node visible => some ⟨id, path, .overwrite node, visible⟩
  | .merge id path nodes => some ⟨id, path, .merge nodes, true⟩
  | .remove _ => none

def removes (id : WriteId) : Act → Bool
  | .remove other => id == other
  | _ => false

/-- The calls that add a write which no later call removes. -/
def survivors : List Act → List Act
  | [] => []
  | act :: rest =>
    if act.write?.any fun write => !rest.any (·.removes write.id) then
      act :: survivors rest
    else survivors rest

private theorem leaves_eq (writes : List Write) (act : Act) :
    act.leaves writes =
      writes.filter (fun write => !act.removes write.id) ++
        act.write?.toList := by
  cases act with
  | overwrite id path node visible => simp [leaves, removes, write?]
  | merge id path nodes => simp [leaves, removes, write?]
  | remove id => exact (List.append_nil _).symm

private theorem adds_of_mem_survivors
    {acts : List Act} {act : Act} (member : act ∈ survivors acts) :
    act.write?.isSome = true := by
  induction acts with
  | nil => cases member
  | cons first rest inductionHypothesis =>
      unfold survivors at member
      split at member
      · rename_i survives
        rcases List.mem_cons.mp member with rfl | later
        · exact Option.isSome_of_any survives
        · exact inductionHypothesis later
      · exact inductionHypothesis member

/-- What calls leave are the writes of the surviving ones, in order. -/
theorem foldl_leaves (acts : List Act) (writes : List Write) :
    acts.foldl leaves writes =
      writes.filter (fun write => !acts.any (·.removes write.id)) ++
        (survivors acts).filterMap write? := by
  -- An earlier write and the one added here are both judged by the calls that are still to come.
  induction acts generalizing writes with
  | nil => simp [survivors]
  | cons act rest inductionHypothesis =>
      rw [List.foldl_cons, inductionHypothesis, leaves_eq,
        List.filter_append, List.filter_filter, List.append_assoc]
      congr 1
      · refine List.filter_congr fun write _ => ?_
        rw [List.any_cons, Bool.not_or, Bool.and_comm]
      · rw [survivors]
        cases added : act.write? with
        | none => rfl
        | some write =>
            cases removed : rest.any (·.removes write.id) with
            | true => simp [removed]
            | false => simp [removed, added]

end Act

/-! ## Refused calls -/

/-- Why a call is refused: it adds a write whose id is not above the last one taken, or else one for
which there is no room, or it removes a write that is not pending. -/
inductive Refuses (pending : Pending) : Act → SyncError → Prop where
  | stale {act : Act} {write : Write} {last : WriteId}
      (adds : act.write? = some write) (isLast : pending.last? = some last)
      (notAbove : write.id ≤ last) :
      Refuses pending act (.staleWrite last write.id)
  | full {act : Act} {write : Write} {limit : Nat}
      (adds : act.write? = some write)
      (above : ∀ last ∈ pending.last?, last < write.id)
      (isLimit : pending.limit? = some limit)
      (noRoom : limit ≤ pending.writes.length) :
      Refuses pending act (.tooManyPending limit)
  | unknown {id : WriteId}
      (absent : ∀ write ∈ pending.writes, write.id ≠ id) :
      Refuses pending (.remove id) (.unknownWrite id)

private theorem act_of_adds
    (pending : Pending) {act : Act} {write : Write}
    (adds : act.write? = some write) :
    pending.act act = pending.add write := by
  cases act with
  | overwrite id path node visible =>
      cases adds
      rfl
  | merge id path nodes =>
      cases adds
      rfl
  | remove id => cases adds

private theorem act_eq_error_of_adds
    (pending : Pending) {act : Act} {write : Write}
    (adds : act.write? = some write) (error : SyncError) :
    pending.act act = .error error ↔
      pending.check write.id = .error error := by
  rw [act_of_adds pending adds, add]
  cases pending.check write.id with
  | error failure =>
      constructor
      · rintro ⟨⟩
        rfl
      · rintro ⟨⟩
        rfl
  | ok _ => exact ⟨nofun, nofun⟩

private theorem act_eq_error_iff
    {pending : Pending} {act : Act} {error : SyncError} :
    pending.act act = .error error ↔ pending.Refuses act error := by
  cases adds : act.write? with
  | none =>
      cases act with
      | overwrite _ _ _ _ => cases adds
      | merge _ _ _ => cases adds
      | remove id =>
          have removed := remove_eq pending id
          constructor
          · intro failed
            split at removed
            · obtain ⟨write, next, isNext, _⟩ := removed
              rw [act, isNext] at failed
              cases failed
            · rename_i absent
              rw [act, removed] at failed
              cases failed
              refine .unknown fun write member isRemoved => absent ?_
              exact List.any_eq_true.mpr ⟨write, member, by simpa⟩
          · intro refused
            cases refused with
            | stale adds => cases adds
            | full adds => cases adds
            | unknown absent =>
                rw [if_neg (by simpa using absent)] at removed
                rw [act, removed]
                rfl
  | some write =>
      rw [act_eq_error_of_adds pending adds]
      constructor
      · intro failed
        by_cases stale : ∃ last, pending.last? = some last ∧ write.id ≤ last
        · obtain ⟨last, isLast, notAbove⟩ := stale
          rw [check_of_stale isLast notAbove] at failed
          cases failed
          exact .stale adds isLast notAbove
        · have above : ∀ last, pending.last? = some last →
              last < write.id :=
            fun last isLast => Nat.lt_of_not_le fun notAbove =>
              stale ⟨last, isLast, notAbove⟩
          rw [check_of_above above] at failed
          split at failed
          · rename_i limit isLimit
            split at failed
            · rename_i noRoom
              cases failed
              exact .full adds above isLimit noRoom
            · cases failed
          · cases failed
      · intro refused
        cases refused with
        | stale otherAdds isLast notAbove =>
            cases adds.symm.trans otherAdds
            exact check_of_stale isLast notAbove
        | full otherAdds above isLimit noRoom =>
            cases adds.symm.trans otherAdds
            rw [check_of_above above, isLimit]
            exact if_pos noRoom
        | unknown _ => cases adds

/-! ## Runs -/

/-- The pending writes after a call, which a refused call leaves alone. -/
def attempt (pending : Pending) (act : Act) : Pending :=
  match pending.act act with
  | .ok next => next
  | .error _ => pending

/-- The pending writes after calls of which some may be refused. -/
def attempts (pending : Pending) (acts : List Act) : Pending :=
  acts.foldl attempt pending

/-- The calls of a run that are not refused. -/
def accepted (pending : Pending) : List Act → List Act
  | [] => []
  | act :: rest =>
    match pending.act act with
    | .ok next => act :: next.accepted rest
    | .error _ => pending.accepted rest

private theorem foldlM_accepted (pending : Pending) (acts : List Act) :
    (pending.accepted acts).foldlM act pending =
      .ok (pending.attempts acts) := by
  induction acts generalizing pending with
  | nil => rfl
  | cons first rest inductionHypothesis =>
      rw [attempts, List.foldl_cons, accepted, attempt]
      cases done : pending.act first with
      | error _ => exact inductionHypothesis pending
      | ok next =>
          dsimp only
          rw [List.foldlM_cons, done]
          exact inductionHypothesis next

/-- The writes are ranked, and as many as may be at most; the overlay is that of the visible
ones. -/
structure Orderly (limit? : Option Nat) (pending : Pending) : Prop where
  ranked : pending.Ranked
  layered : pending.Layered
  limited : pending.limit? = limit?
  room : ∀ limit ∈ limit?, pending.writes.length ≤ limit

variable {limit? : Option Nat} {pending next : Pending}

private theorem orderly_empty (limit? : Option Nat) :
    Orderly limit? { limit? := limit? } where
  ranked := (queued_empty limit?).ranked
  layered := rfl
  limited := rfl
  room := fun _ _ => Nat.zero_le _

private theorem room_of_add
    {write : Write} (added : pending.add write = .ok next) :
    next.limit? = pending.limit? ∧
      ∀ limit, pending.limit? = some limit →
        pending.writes.length < limit := by
  unfold add at added
  cases checked : pending.check write.id with
  | error failure =>
      rw [checked] at added
      cases added
  | ok _ =>
      rw [checked] at added
      cases added
      refine ⟨rfl, fun limit isLimit => ?_⟩
      by_contra noRoom
      rw [check_of_above fun _ isLast => lt_of_check checked isLast, isLimit]
        at checked
      dsimp only at checked
      rw [if_pos (Nat.le_of_not_lt noRoom)] at checked
      cases checked

private theorem limit?_of_remove
    {id : WriteId} {write : Write}
    (removed : pending.remove id = .ok (write, next)) :
    next.limit? = pending.limit? := by
  unfold remove at removed
  split at removed
  · cases removed
  · cases removed
    rfl

private theorem Orderly.add
    (orderly : Orderly limit? pending) {write : Write}
    (added : pending.add write = .ok next) : Orderly limit? next := by
  obtain ⟨sameLimit, fits⟩ := room_of_add added
  refine ⟨orderly.ranked.add added, orderly.layered.add added,
    sameLimit.trans orderly.limited, fun limit isLimit => ?_⟩
  rw [(add_eq_ok added).1, List.length_append, List.length_singleton]
  exact fits limit (orderly.limited.trans isLimit)

private theorem Orderly.remove
    (orderly : Orderly limit? pending) {id : WriteId} {write : Write}
    (removed : pending.remove id = .ok (write, next)) :
    Orderly limit? next := by
  obtain ⟨ranked, writes⟩ := orderly.ranked.remove removed
  refine ⟨ranked, orderly.layered.remove removed,
    (limit?_of_remove removed).trans orderly.limited,
    fun limit isLimit => ?_⟩
  rw [writes]
  exact Nat.le_trans (List.length_filter_le _ _)
    (orderly.room limit isLimit)

/-- A call that succeeds either adds its write or removes one. -/
theorem act_eq_ok
    {act : Act} (done : pending.act act = .ok next) :
    (∃ write, act.write? = some write ∧ pending.add write = .ok next) ∨
      ∃ id write, act = .remove id ∧
        pending.remove id = .ok (write, next) := by
  cases act with
  | overwrite id path node visible => exact .inl ⟨_, rfl, done⟩
  | merge id path nodes => exact .inl ⟨_, rfl, done⟩
  | remove id =>
      rw [Pending.act] at done
      cases removed : pending.remove id with
      | error failure =>
          rw [removed] at done
          cases done
      | ok answer =>
          rw [removed] at done
          cases done
          exact .inr ⟨id, answer.1, rfl, removed⟩

private theorem Orderly.act
    (orderly : Orderly limit? pending) {act : Act}
    (done : pending.act act = .ok next) :
    Orderly limit? next ∧ next.writes = act.leaves pending.writes := by
  rcases act_eq_ok done with
    ⟨write, adds, added⟩ | ⟨id, write, rfl, removed⟩
  · refine ⟨orderly.add added, ?_⟩
    cases act with
    | remove _ => cases adds
    | _ =>
        cases adds
        exact (add_eq_ok added).1
  · exact ⟨orderly.remove removed, (orderly.ranked.remove removed).2⟩

private theorem Orderly.acts
    (orderly : Orderly limit? pending) {acts : List Act}
    (done : acts.foldlM Pending.act pending = .ok next) :
    Orderly limit? next ∧
      next.writes = acts.foldl Act.leaves pending.writes := by
  induction acts generalizing pending with
  | nil =>
      cases done
      exact ⟨orderly, rfl⟩
  | cons first rest inductionHypothesis =>
      rw [List.foldlM_cons] at done
      cases stepped : pending.act first with
      | error failure =>
          rw [stepped] at done
          cases done
      | ok middle =>
          rw [stepped] at done
          obtain ⟨middleOrderly, middleWrites⟩ := orderly.act stepped
          rw [List.foldl_cons, ← middleWrites]
          exact inductionHypothesis middleOrderly done

private theorem last_le_of_attempt
    (pending : Pending) (act : Act) {last : WriteId}
    (isLast : pending.last? = some last) :
    ∃ later, (pending.attempt act).last? = some later ∧ last ≤ later := by
  unfold attempt
  cases done : pending.act act with
  | error _ => exact ⟨last, isLast, Nat.le_refl _⟩
  | ok next =>
      rcases act_eq_ok done with ⟨write, _, added⟩ | ⟨id, write, _, removed⟩
      · obtain ⟨isNew, above⟩ := last_lt_of_add added
        exact ⟨write.id, isNew, Nat.le_of_lt (above last isLast)⟩
      · exact ⟨last, (last?_of_remove removed).trans isLast, Nat.le_refl _⟩

private theorem last_le_of_attempts
    (pending : Pending) (acts : List Act) {last : WriteId}
    (isLast : pending.last? = some last) :
    ∃ later, (pending.attempts acts).last? = some later ∧
      last ≤ later := by
  induction acts generalizing pending last with
  | nil => exact ⟨last, isLast, Nat.le_refl _⟩
  | cons first rest inductionHypothesis =>
      obtain ⟨middle, isMiddle, below⟩ :=
        last_le_of_attempt pending first isLast
      obtain ⟨later, isLater, above⟩ :=
        inductionHypothesis (pending.attempt first) isMiddle
      exact ⟨later, isLater, Nat.le_trans below above⟩

/-! ## The surviving calls -/

/-- Calls that add writes with ascending ids above all earlier ones succeed as long as there is
room. -/
theorem Orderly.refill
    (orderly : Orderly limit? pending) {acts : List Act}
    (adds : ∀ act ∈ acts, act.write?.isSome = true)
    (ascending :
      ((acts.filterMap Act.write?).map (·.id)).Pairwise (· < ·))
    (above : ∀ last, pending.last? = some last →
      ∀ write ∈ acts.filterMap Act.write?, last < write.id)
    (room : ∀ limit ∈ limit?, pending.writes.length +
      (acts.filterMap Act.write?).length ≤ limit) :
    ∃ next, acts.foldlM Pending.act pending = .ok next ∧
      next.writes = pending.writes ++ acts.filterMap Act.write? := by
  -- `above` and `room` speak of the calls still to be made: each call that succeeds raises the
  -- last id and takes up room for itself alone.
  induction acts generalizing pending with
  | nil => exact ⟨pending, rfl, (List.append_nil _).symm⟩
  | cons first rest inductionHypothesis =>
      obtain ⟨firstAdds, othersAdd⟩ := List.forall_mem_cons.mp adds
      obtain ⟨write, isWrite⟩ := Option.isSome_iff_exists.mp firstAdds
      rw [List.filterMap_cons_some isWrite] at ascending above room
      obtain ⟨least, restAscending⟩ := List.pairwise_cons.mp ascending
      cases done : pending.act first with
      | error failure =>
          cases act_eq_error_iff.mp done with
          | stale otherAdds isLast notAbove =>
              cases isWrite.symm.trans otherAdds
              have isAbove := above _ isLast write List.mem_cons_self
              exact absurd notAbove (Nat.not_le.mpr isAbove)
          | full _ _ isLimit noRoom =>
              have fits := room _ (orderly.limited.symm.trans isLimit)
              rw [List.length_cons] at fits
              omega
          | unknown _ => cases isWrite
      | ok next =>
          obtain ⟨nextOrderly, _⟩ := orderly.act done
          rw [act_of_adds pending isWrite] at done
          have isLast := (last_lt_of_add done).1
          have added := (add_eq_ok done).1
          obtain ⟨final, refilled, writes⟩ :=
            inductionHypothesis nextOrderly othersAdd restAscending
              (fun last isOther other member => by
                cases isLast.symm.trans isOther
                exact least other.id (List.mem_map_of_mem member))
              (fun limit isLimit => by
                have fits := room limit isLimit
                rw [List.length_cons] at fits
                rw [added, List.length_append, List.length_singleton]
                omega)
          refine ⟨final, ?_, ?_⟩
          · rw [List.foldlM_cons, act_of_adds pending isWrite, done]
            exact refilled
          · rw [writes, added, List.filterMap_cons_some isWrite,
              List.append_assoc, List.singleton_append]

/-- The surviving ones of calls that succeed would succeed alone and leave the same. -/
theorem refill_survivors
    (limit? : Option Nat) {acts : List Act}
    (done : acts.foldlM act { limit? := limit? } = .ok pending) :
    pending.writes = (Act.survivors acts).filterMap Act.write? ∧
      ∃ fresh : Pending,
        (Act.survivors acts).foldlM act { limit? := limit? } = .ok fresh ∧
          fresh.writes = pending.writes ∧
          fresh.overlay = pending.overlay := by
  have empty := orderly_empty limit?
  obtain ⟨orderly, writes⟩ := empty.acts done
  have survived :
      (Act.survivors acts).filterMap Act.write? = pending.writes := by
    rw [writes, Act.foldl_leaves]
    rfl
  obtain ⟨fresh, refilled, freshWrites⟩ := empty.refill
    (fun act member => Act.adds_of_mem_survivors member)
    (survived ▸ orderly.ranked.ascending) nofun
    (fun limit isLimit => by
      rw [survived]
      simpa using orderly.room limit isLimit)
  have same : fresh.writes = pending.writes := freshWrites.trans survived
  have freshOrderly := (empty.acts refilled).1
  refine ⟨survived.symm, fresh, refilled, same, ?_⟩
  rw [freshOrderly.layered, orderly.layered, same]

/-- The pending writes after calls of which some may have been refused. -/
structure Survived (limit? : Option Nat) (acts : List Act)
    (pending : Pending) : Prop where
  ascending : (pending.writes.map (·.id)).Pairwise (· < ·)
  bounded : ∀ write ∈ pending.writes, ∃ last,
    pending.last? = some last ∧ write.id ≤ last
  /-- The last id taken never goes down, whatever is called next. -/
  grows : ∀ last, pending.last? = some last → ∀ more : List Act,
    ∃ later, (pending.attempts more).last? = some later ∧ last ≤ later
  room : ∀ limit ∈ limit?, pending.writes.length ≤ limit
  /-- A call fails exactly for its cause, and then changes nothing. -/
  refuses : ∀ (act : Act) (error : SyncError),
    (pending.act act = .error error ↔ pending.Refuses act error) ∧
      (pending.act act = .error error → pending.attempt act = pending)
  /-- Only the surviving calls leave a write. -/
  kept : pending.writes =
    (Act.survivors (({ limit? := limit? } : Pending).accepted acts)).filterMap
      Act.write?
  /-- The surviving calls would succeed alone and leave the same. -/
  refilled : ∃ fresh : Pending,
    (Act.survivors (({ limit? := limit? } : Pending).accepted acts)).foldlM
        act { limit? := limit? } = .ok fresh ∧
      fresh.writes = pending.writes ∧ fresh.overlay = pending.overlay

/-- Whatever calls are made and refused, the pending writes are in the order of their ids and not
too many, and they and their overlay are those of the calls that survive. -/
theorem attempts_survived
    (limit? : Option Nat) (acts : List Act) :
    Survived limit? acts
      (({ limit? := limit? } : Pending).attempts acts) := by
  have done := foldlM_accepted { limit? := limit? } acts
  have orderly := ((orderly_empty limit?).acts done).1
  exact {
    ascending := orderly.ranked.ascending
    bounded := orderly.ranked.last
    grows := fun _ isLast more => last_le_of_attempts _ more isLast
    room := orderly.room
    refuses := fun act error => by
      refine ⟨act_eq_error_iff, fun failed => ?_⟩
      rw [attempt, failed]
    kept := (refill_survivors limit? done).1
    refilled := (refill_survivors limit? done).2 }

/-- Calls on a child, a write that takes the child in, and its removal, with a hidden write, a stale
one and one too many in between. -/
def childAndParent : List Act :=
  [.overwrite 1 [⟨"a"⟩, ⟨"x"⟩] (.ofScalar (.bool true)) true,
    .merge 3 [] (.ofNode .empty),
    .overwrite 2 [⟨"b"⟩] .empty true,
    .overwrite 4 [⟨"c"⟩] .empty false,
    .overwrite 5 [⟨"b"⟩] .empty true,
    .remove 3,
    .remove 3]

/-- The child stands on its own again. -/
example :
    let pending := ({ limit? := some 3 } : Pending).attempts childAndParent
    pending.writes.map (·.id) = [1, 4] ∧ pending.last? = some 4 ∧
      (pending.overlay.node? [⟨"a"⟩, ⟨"x"⟩]).isSome = true ∧
      (pending.overlay.node? []).isSome = false := by
  decide

end Replica.Pending
