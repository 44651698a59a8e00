import Replica.Proofs.Engine.Step

/-!
# Refused calls

The engine refuses a local write whose id is not above the last one, or for which there is no
room, and the answer to a write that is not pending. It refuses no data of the server: routing
never fails, whatever filters an operation meets. A refused call changes nothing but the counter
of errors.
-/

namespace Replica

/-- Why a new local write is refused: its id is not above the last one ever added, or else as many
writes are pending as may be. -/
def refusalOfWrite? (last? : Option WriteId) (limit pending : Nat)
    (id : WriteId) : Option SyncError :=
  match last?.filter fun last => id ≤ last with
  | some last => some (.staleWrite last id)
  | none => if limit ≤ pending then some (.tooManyPending limit) else none

theorem refusalOfWrite?_of_stale
    {last? : Option WriteId} {last id : WriteId} (isLast : last? = some last)
    (notAbove : id ≤ last) (limit pending : Nat) :
    refusalOfWrite? last? limit pending id = some (.staleWrite last id) := by
  rw [refusalOfWrite?, isLast, Option.filter_some,
    if_pos (by simpa using notAbove)]

theorem refusalOfWrite?_of_above
    {last? : Option WriteId} {id : WriteId}
    (above : ∀ last, last? = some last → last < id) (limit pending : Nat) :
    refusalOfWrite? last? limit pending id =
      if limit ≤ pending then some (.tooManyPending limit) else none := by
  have fresh : last?.filter (id ≤ ·) = none := by
    refine Option.filter_eq_none_iff.mpr fun last isLast => ?_
    simpa using above last isLast
  rw [refusalOfWrite?, fresh]

namespace Pending

private theorem check_eq
    {pending : Pending} {limit : Nat} (limited : pending.limit? = some limit)
    (id : WriteId) :
    pending.check id =
      match refusalOfWrite? pending.last? limit pending.writes.length
        id with
      | some error => .error error
      | none => .ok () := by
  by_cases stale : ∃ last, pending.last? = some last ∧ id ≤ last
  · obtain ⟨last, isLast, notAbove⟩ := stale
    rw [check_of_stale isLast notAbove,
      refusalOfWrite?_of_stale isLast notAbove]
  · have above : ∀ last, pending.last? = some last → last < id :=
      fun last isLast => Nat.lt_of_not_le fun notAbove =>
        stale ⟨last, isLast, notAbove⟩
    rw [check_of_above above, limited, refusalOfWrite?_of_above above]
    dsimp only
    split
    · rfl
    · rfl

/-- A write is added unless it is refused, and its id is then the last one. -/
theorem add_eq
    {pending : Pending} {limit : Nat} (limited : pending.limit? = some limit)
    (write : Write) :
    match refusalOfWrite? pending.last? limit pending.writes.length
      write.id with
    | some error => pending.add write = .error error
    | none => ∃ next, pending.add write = .ok next ∧
        next.last? = some write.id ∧ next.limit? = some limit := by
  unfold add
  rw [check_eq limited]
  cases refusalOfWrite? pending.last? limit pending.writes.length
    write.id with
  | some error => rfl
  | none => exact ⟨_, rfl, rfl, limited⟩

end Pending

namespace Engine

/-- The reply to a call that makes a local write, answers one, or brings data of the server. -/
def reply? (engine : Engine) : Call → Option (Reply (List Event))
  | .userOverwrite path node id visible =>
      some (engine.userOverwrite path node id visible)
  | .userMerge path nodes id => some (engine.userMerge path nodes id)
  | .acknowledge id rejected => some (engine.acknowledge id rejected)
  | .serverOverwrite path node => some (engine.serverOverwrite path node)
  | .serverMerge path nodes => some (engine.serverMerge path nodes)
  | .listenComplete path => some (engine.listenComplete path)
  | .register _ _ => none
  | .unregister _ _ => none
  | .removeListener _ => none
  | .revoke _ => none

/-- The id of the local write that a call adds, if the engine accepts it. -/
def adds (engine : Engine) (call : Call) : List WriteId :=
  match engine.reply? call with
  | some ⟨.ok _, _⟩ => (call.write?.map Write.id).toList
  | _ => []

theorem adds_eq
    {engine : Engine} {call : Call} {write : Write}
    (isWrite : call.write? = some write) {reply : Reply (List Event)}
    (replied : engine.reply? call = some reply) :
    engine.adds call =
      (reply.result.toOption.map fun _ => write.id).toList := by
  rw [adds, replied, isWrite]
  obtain ⟨result, after⟩ := reply
  cases result <;> rfl

theorem adds_of_quiet
    {engine : Engine} {call : Call} (quiet : call.write? = none) :
    engine.adds call = [] := by
  rw [adds, quiet]
  split <;> rfl

/-- The ids of all local writes that a run adds, in order. -/
def added : Engine → List Call → List WriteId
  | _, [] => []
  | engine, call :: rest =>
      engine.adds call ++ added (engine.perform call).2 rest

/-- Why a call is refused, given the ids of all local writes added before. -/
def refusal? (engine : Engine) (ids : List WriteId) :
    Call → Option SyncError
  | .userOverwrite _ _ id _ =>
      refusalOfWrite? ids.getLast? engine.config.maxPending
        engine.pending.writes.length id
  | .userMerge _ _ id =>
      refusalOfWrite? ids.getLast? engine.config.maxPending
        engine.pending.writes.length id
  | .acknowledge id _ =>
      if engine.pending.writes.any (·.id == id) then none
      else some (.unknownWrite id)
  | _ => none

def refused (engine : Engine) : Engine :=
  { engine with counters := engine.counters.countError }

variable {engine : Engine}

/-! ## Accepted and refused calls -/

/-- A reply refuses a call with one error and changes nothing, or it accepts the call. -/
def Answers (engine : Engine) (refusal? : Option SyncError)
    (reply : Reply (List Event)) : Prop :=
  match refusal? with
  | some error => reply = ⟨.error error, engine.refused⟩
  | none => ∃ events, reply.result = .ok events

/-- What the engine knows of the local writes of a run: the last id, and how many may be
pending. -/
structure Counts (engine : Engine) (ids : List WriteId) : Prop where
  last : engine.pending.last? = ids.getLast?
  limit : engine.pending.limit? = some engine.config.maxPending

theorem Counts.create (config : Config) : Counts (create config) [] :=
  ⟨rfl, rfl⟩

section

variable {ids : List WriteId} (counts : engine.Counts ids)
  (sound : engine.Sound)

include counts sound

/-- A write that is refused changes nothing. A write that is added becomes the last one, and it is
routed unless it is hidden. -/
private theorem answers_add
    (write : Write) {operation : Operation} (valid : operation.Valid)
    (writeValid : write.overlay.Valid) {reply : Reply (List Event)}
    (replied : reply =
      match engine.pending.add write with
      | .error error => engine.fail error
      | .ok pending =>
        let counted :=
          { engine with counters := engine.counters.countUserWrite }
        if write.visible then counted.run operation pending
        else { counted with pending := pending }.succeed []) :
    engine.Answers (refusalOfWrite? ids.getLast? engine.config.maxPending
        engine.pending.writes.length write.id) reply ∧
      reply.engine.Counts (ids ++
        (reply.result.toOption.map fun _ => write.id).toList) := by
  have added := Pending.add_eq counts.limit write
  rw [counts.last] at added
  cases refusal : refusalOfWrite? ids.getLast? engine.config.maxPending
    engine.pending.writes.length write.id with
  | some error =>
      rw [refusal] at added
      dsimp only at added
      rw [added] at replied
      subst replied
      have unchanged : engine.refused.Counts (ids ++ []) := by
        rw [List.append_nil]
        exact ⟨counts.last, counts.limit⟩
      exact ⟨rfl, unchanged⟩
  | none =>
      rw [refusal] at added
      obtain ⟨next, isNext, last, limit⟩ := added
      rw [isNext] at replied
      have accepted : ∃ events after, reply = ⟨.ok events, after⟩ ∧
          after.pending = next ∧ after.config = engine.config := by
        dsimp only at replied
        split at replied
        · rw [replied]
          let counted : Engine :=
            { engine with counters := engine.counters.countUserWrite }
          have countedSound : counted.sites.Sound := sound.sites
          obtain ⟨events, after, isReply, isPending, isConfig, _⟩ :=
            run_ok countedSound valid (sound.pending.add writeValid isNext)
          exact ⟨events, after, isReply, isPending, isConfig⟩
        · exact ⟨_, _, replied, rfl, rfl⟩
      obtain ⟨events, after, rfl, isPending, isConfig⟩ := accepted
      refine ⟨⟨events, rfl⟩, ?_, ?_⟩
      · dsimp only
        rw [isPending, last, List.getLast?_append]
        rfl
      · dsimp only
        rw [isPending, limit, isConfig]

/-- The answer to a write is refused only if the write is not pending. -/
private theorem answers_acknowledge (id : WriteId) (rejected : Bool) :
    engine.Answers
        (if engine.pending.writes.any (·.id == id) then none
        else some (.unknownWrite id)) (engine.acknowledge id rejected) ∧
      (engine.acknowledge id rejected).engine.Counts ids := by
  have removed := Pending.remove_eq engine.pending id
  unfold acknowledge
  split at removed
  · rename_i present
    obtain ⟨write, next, isNext, last, limit⟩ := removed
    rw [if_pos present, isNext]
    dsimp only
    have accepted (reply : Reply (List Event))
        (isAccepted : ∃ events after, reply = ⟨.ok events, after⟩ ∧
          after.pending = next ∧ after.config = engine.config) :
        engine.Answers none reply ∧ reply.engine.Counts ids := by
      obtain ⟨events, after, rfl, isPending, isConfig⟩ := isAccepted
      refine ⟨⟨events, rfl⟩, ?_, ?_⟩
      · dsimp only
        rw [isPending, last, counts.last]
      · dsimp only
        rw [isPending, limit, isConfig, counts.limit]
    split
    · exact accepted _ ⟨_, _, rfl, rfl, rfl⟩
    · have valid :
          (Operation.acknowledge write.path rejected
            write.overlay).Valid :=
        sound.pending.valid_of_remove isNext
      let counted : Engine :=
        { engine with counters := engine.counters.countAnswer rejected }
      have countedSound : counted.sites.Sound := sound.sites
      obtain ⟨events, after, isReply, isPending, isConfig, _⟩ :=
        run_ok countedSound valid (sound.pending.remove isNext)
      exact accepted _ ⟨events, after, isReply, isPending, isConfig⟩
  · rename_i absent
    rw [if_neg absent, removed]
    exact ⟨rfl, counts.last, counts.limit⟩

private theorem answers_server
    {operation : Operation} (valid : operation.Valid) :
    engine.Answers none (engine.serverOperation operation) ∧
      (engine.serverOperation operation).engine.Counts ids := by
  let counted : Engine :=
    { engine with counters := engine.counters.countServerOperation }
  have countedSound : counted.sites.Sound := sound.sites
  obtain ⟨events, next, isReply, isPending, isConfig, _⟩ :=
    run_ok countedSound valid sound.pending
  have replied : engine.serverOperation operation = ⟨.ok events, next⟩ :=
    isReply
  rw [replied]
  refine ⟨⟨events, rfl⟩, ?_, ?_⟩
  · dsimp only
    rw [isPending, counts.last]
  · dsimp only
    rw [isPending, isConfig]
    exact counts.limit

/-- A call is refused exactly for its cause, and the engine goes on counting. -/
theorem Counts.reply
    {call : Call} (valid : call.Valid) {reply : Reply (List Event)}
    (replied : engine.reply? call = some reply) :
    engine.Answers (engine.refusal? ids call) reply ∧
      reply.engine.Counts (ids ++ engine.adds call) := by
  have ids_of_quiet (quiet : call.write? = none) :
      ids ++ engine.adds call = ids := by
    rw [adds_of_quiet quiet, List.append_nil]
  cases call with
  | userOverwrite path node id visible =>
      rw [adds_eq rfl replied]
      cases replied
      have operationValid : (Operation.overwrite .user path node).Valid :=
        valid
      exact answers_add counts sound ⟨id, path, .overwrite node, visible⟩
        operationValid (Overlay.Valid.ofNode valid) rfl
  | userMerge path nodes id =>
      rw [adds_eq rfl replied]
      cases replied
      have operationValid : (Operation.merge .user path nodes).Valid :=
        valid
      exact answers_add counts sound ⟨id, path, .merge nodes, true⟩
        operationValid valid rfl
  | acknowledge id rejected =>
      rw [ids_of_quiet rfl]
      cases replied
      exact answers_acknowledge counts sound id rejected
  | serverOverwrite path node =>
      rw [ids_of_quiet rfl]
      cases replied
      have operationValid : (Operation.overwrite .server path node).Valid :=
        valid
      exact answers_server counts sound operationValid
  | serverMerge path nodes =>
      rw [ids_of_quiet rfl]
      cases replied
      have operationValid : (Operation.merge .server path nodes).Valid :=
        valid
      exact answers_server counts sound operationValid
  | listenComplete path =>
      rw [ids_of_quiet rfl]
      cases replied
      have operationValid : (Operation.listenComplete path).Valid := trivial
      exact answers_server counts sound operationValid
  | register _ _ => cases replied
  | unregister _ _ => cases replied
  | removeListener _ => cases replied
  | revoke _ => cases replied

end

/-! ## Runs -/

private theorem perform_of_reply?
    {call : Call} {reply : Reply (List Event)}
    (replied : engine.reply? call = some reply) :
    engine.perform call = reply.outcome := by
  cases call <;> cases replied <;> rfl

theorem Counts.perform
    {ids : List WriteId} (counts : engine.Counts ids)
    (sound : engine.Sound) {call : Call} (valid : call.Valid) :
    (engine.perform call).2.Counts (ids ++ engine.adds call) := by
  cases replied : engine.reply? call with
  | some reply =>
      rw [perform_of_reply? replied, Reply.engine_outcome]
      exact (counts.reply sound valid replied).2
  | none =>
      have listens : call.listens = true := by
        cases call with
        | register _ _ => rfl
        | unregister _ _ => rfl
        | removeListener _ => rfl
        | revoke _ => rfl
        | _ => cases replied
      obtain ⟨pending, config⟩ := kept_of_listens sound.sites listens
      have nothing : engine.adds call = [] := by
        unfold adds
        rw [replied]
      rw [nothing, List.append_nil]
      refine ⟨?_, ?_⟩
      · rw [pending, counts.last]
      · rw [pending, config, counts.limit]

private theorem Counts.after
    {ids : List WriteId} (counts : engine.Counts ids)
    (sound : engine.Sound) {calls : List Call}
    (valid : ∀ call ∈ calls, call.Valid) :
    (engine.after calls).Counts (ids ++ engine.added calls) := by
  induction calls generalizing engine ids with
  | nil =>
      rw [added, List.append_nil]
      exact counts
  | cons call rest inductionHypothesis =>
      obtain ⟨first, others⟩ := List.forall_mem_cons.mp valid
      rw [added, ← List.append_assoc]
      exact inductionHypothesis (counts.perform sound first)
        (sound.perform first) others

/-- In every state that a run reaches, a call that writes locally, answers a local write or brings
data of the server is refused exactly for its cause: an id that is not above the last one ever
added, or else no room; the answer to a write that is not pending. Such a call raises no events
and changes nothing but the counter of errors. -/
theorem refused_iff
    (config : Config) (calls : List Call)
    (valid : ∀ call ∈ calls, call.Valid) {call : Call}
    (callValid : call.Valid) {reply : Reply (List Event)}
    (replied : ((create config).after calls).reply? call = some reply)
    (error : SyncError) :
    (reply.result = .error error ↔
        ((create config).after calls).refusal?
          ((create config).added calls) call = some error) ∧
      (reply.result = .error error →
        reply.engine = ((create config).after calls).refused ∧
          ((create config).after calls).perform call =
            ([], ((create config).after calls).refused)) := by
  have sound := (Sound.create config).after valid
  have counts := (Counts.create config).after (Sound.create config) valid
  rw [List.nil_append] at counts
  have answers := (counts.reply sound callValid replied).1
  rw [perform_of_reply? replied]
  unfold Answers at answers
  split at answers
  · rename_i cause isCause
    subst answers
    rw [isCause]
    refine ⟨⟨fun failed => ?_, fun failed => ?_⟩, fun _ => ⟨rfl, rfl⟩⟩
    · cases failed
      rfl
    · cases failed
      rfl
  · rename_i noCause
    obtain ⟨events, accepted⟩ := answers
    rw [noCause, accepted]
    refine ⟨⟨fun failed => ?_, fun failed => ?_⟩, fun failed => ?_⟩
    · cases failed
    · cases failed
    · cases failed

/-- A hidden local write that takes the only place. -/
def fullQueue : List Call :=
  [.userOverwrite [⟨"a"⟩] (.ofScalar (.bool true)) 5 false]

/-- Of two causes, that the id is stale comes first. -/
theorem refused_iff_stale_write_without_room :
    ∃ reply,
      ((create { session := "", maxPending := 1 }).after
          fullQueue).reply? (.userMerge [] .empty 5) = some reply ∧
        reply.result = .error (.staleWrite 5 5) ∧
        reply.engine = ((create { session := "", maxPending := 1 }).after
          fullQueue).refused := by
  have valid : ∀ call ∈ fullQueue, call.Valid := by
    simp [fullQueue, Call.Valid, Node.Canonical.ofScalar]
  have callValid : (Call.userMerge [] .empty 5).Valid :=
    Overlay.Valid.empty
  obtain ⟨refused, unchanged⟩ :=
    refused_iff { session := "", maxPending := 1 } fullQueue valid
      callValid rfl (.staleWrite 5 5)
  have failed := refused.mpr rfl
  exact ⟨_, rfl, failed, (unchanged failed).1⟩

end Engine

end Replica
