import Mathlib
import Replica.Proofs.Client.Calls
import Replica.Proofs.Engine.Refusal

/-!
# The numbers of local writes

A client gives out numbers for local writes, and takes over the numbers that some of them bring.
The engine accepts ascending numbers only. As long as the last number there is has not been
accepted, the next number stands above all that were; afterwards every local write fails.
-/

namespace Replica

/-- A local write that brings its own number brings one that fits. -/
def Request.Sized : Request → Prop
  | .user message => message.write ≤ Client.lastWrite
  | _ => True

/-- An outcome is a failure of which no listener hears, and which leaves the pending writes and all
views as they were. -/
structure Outcome.Fails {α : Type} (client : Client) (outcome : Outcome α) :
    Prop where
  failed : ∃ error, outcome.result = .error error
  silent : outcome.delivered = [] ∧ outcome.cancelled = []
  pending : outcome.client.engine.pending = client.engine.pending
  sites : outcome.client.engine.sites = client.engine.sites

namespace Client

/-- The number of the local write that a client accepts with a request, if it accepts one. -/
def accepts (client : Client) : Request → List WriteId
  | .set source node => (client.set source node).result.toOption.toList
  | .update source writes =>
      (client.update source writes).result.toOption.toList
  | .user message =>
      ((client.applyUser message).result.toOption.map fun _ =>
        message.write).toList
  | _ => []

/-- The numbers of all local writes that a client accepts in a run, in order. -/
def accepted : Client → List Request → List WriteId
  | _, [] => []
  | client, request :: rest =>
      client.accepts request ++ accepted (client.handle request).client rest

/-- What a local write at a location answers as long as there are numbers: that the location cannot
be read, that there is no room, or the next number. -/
def answer (client : Client) (source : String) : Except ClientError WriteId :=
  match Path.parse source with
  | .error error => .error (.data error)
  | .ok _ =>
      if client.engine.config.maxPending ≤ client.engine.pending.writes.length
      then .error (.engine (.tooManyPending client.engine.config.maxPending))
      else .ok client.nextWrite

/-- A local write is not refused for its number, and a number that it returns stands above the given
ones. It fails for want of a location or of room only. -/
structure Ascends (client : Client) (ids : List WriteId) (source : String)
    (outcome : Outcome WriteId) : Prop where
  fresh : ∀ last attempted : WriteId,
    outcome.result ≠ .error (.engine (.staleWrite last attempted))
  above : ∀ id, outcome.result = .ok id → ∀ earlier ∈ ids, earlier < id
  answered : outcome.result = client.answer source

variable {client : Client} {request : Request}

/-! ## What a client accepts -/

@[simp]
private theorem toOption_settle
    {α : Type} (client : Client) (reply : Reply (List Event))
    (answer : List Event → α) :
    (client.settle reply answer).result.toOption =
      reply.result.toOption.map answer := by
  unfold settle
  cases reply.result <;> rfl

private theorem toOption_attempt
    {α : Type} (client : Client) (argument : Except ClientError α)
    (call : α → Reply (List Event)) :
    (client.attempt argument call).result.toOption =
      argument.toOption.bind fun value => (call value).result.toOption := by
  cases argument with
  | error _ => rfl
  | ok value =>
      rw [attempt, toOption_settle, Option.map_id]
      rfl

/-- Calls the engine with a local write that brings its own number. -/
def attemptUser (client : Client) : UserMessage → Outcome (List Event)
  | .overwrite write source data =>
      client.attempt (decodeOverwrite source data) fun (path, node) =>
        client.engine.userOverwrite path node write true
  | .merge write source children =>
      client.attempt (decodeMerge source children) fun (path, nodes) =>
        client.engine.userMerge path nodes write

private theorem applyUser_eq (client : Client) (message : UserMessage) :
    client.applyUser message =
      let outcome := client.attemptUser message
      match outcome.result with
      | .ok _ =>
          { outcome with client := outcome.client.skipWrite message.write }
      | .error _ => outcome := by
  cases message <;> rfl

@[simp]
private theorem result_applyUser (client : Client) (message : UserMessage) :
    (client.applyUser message).result =
      (client.attemptUser message).result := by
  rw [applyUser_eq]
  dsimp only
  split <;> rfl

/-- A client accepts the local writes that its engine adds. -/
theorem accepts_eq (client : Client) (request : Request) :
    client.accepts request =
      ((client.asks? request).map client.engine.adds).getD [] := by
  have quiet {call? : Option Call}
      (quiet : ∀ call ∈ call?, call.write? = none) :
      [] = (call?.map client.engine.adds).getD [] := by
    cases call? with
    | none => rfl
    | some call => exact (Engine.adds_of_quiet (quiet call rfl)).symm
  cases request with
  | subscribe _ _ => exact quiet (by rintro _ ⟨⟩; rfl)
  | onCancel _ _ => rfl
  | unsubscribe _ =>
      refine quiet fun call asked => ?_
      obtain ⟨_, _, rfl⟩ := Option.map_eq_some_iff.mp asked
      rfl
  | set source node =>
      rw [accepts, set, asks?]
      cases Path.parse source with
      | error _ => rfl
      | ok path =>
          dsimp only
          rw [toOption_settle]
          exact (@Engine.adds_eq _ (.userOverwrite _ _ _ _) _ rfl _ rfl).symm
  | update source writes =>
      rw [accepts, update, asks?]
      cases Path.parse source with
      | error _ => rfl
      | ok path =>
          dsimp only
          rw [toOption_settle]
          exact (@Engine.adds_eq _ (.userMerge _ _ _) _ rfl _ rfl).symm
  | user message =>
      rw [accepts, result_applyUser]
      cases message with
      | overwrite write source data =>
          rw [attemptUser, asks?, toOption_attempt]
          cases (decodeOverwrite source data).toOption with
          | none => rfl
          | some value =>
              exact (@Engine.adds_eq _ (.userOverwrite _ _ _ _) _ rfl _ rfl).symm
      | merge write source children =>
          rw [attemptUser, asks?, toOption_attempt]
          cases (decodeMerge source children).toOption with
          | none => rfl
          | some value =>
              exact (@Engine.adds_eq _ (.userMerge _ _ _) _ rfl _ rfl).symm
  | server message =>
      refine quiet fun call asked => ?_
      cases message with
      | acknowledge _ _ =>
          cases asked
          rfl
      | _ =>
          obtain ⟨_, _, rfl⟩ := Option.map_eq_some_iff.mp asked
          rfl

/-! ## The next number -/

@[simp]
private theorem nextWrite_settle
    {α : Type} (client : Client) (reply : Reply (List Event))
    (answer : List Event → α) :
    (client.settle reply answer).client.nextWrite = client.nextWrite := by
  unfold settle
  cases reply.result <;> rfl

@[simp]
private theorem nextWrite_attempt
    {α : Type} (client : Client) (argument : Except ClientError α)
    (call : α → Reply (List Event)) :
    (client.attempt argument call).client.nextWrite = client.nextWrite := by
  cases argument with
  | error _ => rfl
  | ok value => exact nextWrite_settle client (call value) id

@[simp]
private theorem nextWrite_subscribe
    (client : Client) (query : Query) (kinds : List ChangeKind) :
    (client.subscribe query kinds).client.nextWrite = client.nextWrite := by
  unfold subscribe
  dsimp only
  split
  · exact nextWrite_settle _ _ _
  · exact nextWrite_settle _ _ _

@[simp]
private theorem nextWrite_applyServer
    (client : Client) (message : ServerMessage) :
    (client.applyServer message).client.nextWrite = client.nextWrite := by
  cases message with
  | overwrite _ _ => exact nextWrite_attempt _ _ _
  | merge _ _ => exact nextWrite_attempt _ _ _
  | acknowledge _ _ => exact nextWrite_settle _ _ _
  | listenComplete _ => exact nextWrite_attempt _ _ _
  | listenRevoked source _ =>
      change (revoke _ _ _).client.nextWrite = _
      unfold revoke
      split <;> rfl

private theorem nextWrite_applyUser (client : Client) (message : UserMessage) :
    (client.applyUser message).client.nextWrite =
      match (client.applyUser message).result with
      | .ok _ =>
          max client.nextWrite (min (message.write + 1) lastWrite)
      | .error _ => client.nextWrite := by
  have attempted :
      (client.attemptUser message).client.nextWrite = client.nextWrite := by
    cases message <;> exact nextWrite_attempt _ _ _
  rw [result_applyUser, applyUser_eq]
  dsimp only
  split
  · exact congrArg (max · _) attempted
  · exact attempted

/-- How a local write ends that is given a number: its location cannot be read, or the engine is
called. -/
inductive Given (client : Client) (source : String) (call : Path → Call) :
    Outcome WriteId → Prop where
  | lost {error : DataError} (unread : Path.parse source = .error error) :
      Given client source call (client.refuse (.data error))
  | sent {path : Path} (read : Path.parse source = .ok path)
      {reply : Reply (List Event)}
      (replied : client.engine.reply? (call path) = some reply) :
      Given client source call
        (client.allocate.2.settle reply fun _ => client.nextWrite)

private theorem given_set (client : Client) (source : String) (node : Node) :
    client.Given source (.userOverwrite · node client.nextWrite true)
      (client.set source node) := by
  unfold set
  cases read : Path.parse source with
  | error failure => exact .lost read
  | ok path => exact .sent read rfl

private theorem given_update
    (client : Client) (source : String) (writes : List (Path × Node)) :
    client.Given source (.userMerge · (.ofWrites writes) client.nextWrite)
      (client.update source writes) := by
  unfold update
  cases read : Path.parse source with
  | error failure => exact .lost read
  | ok path => exact .sent read rfl

/-- What a request can do to the next number. -/
inductive Numbers (client : Client) (request : Request) : WriteId → Prop where
  /-- No local write is accepted. -/
  | kept (nothing : client.accepts request = []) :
      Numbers client request client.nextWrite
  /-- The next number is given out, whether or not the write is accepted. -/
  | given (own : ∀ id ∈ client.accepts request, id = client.nextWrite) :
      Numbers client request (min (client.nextWrite + 1) lastWrite)
  /-- A write is accepted that brings its own number. -/
  | taken {message : UserMessage} (isRequest : request = .user message)
      (own : client.accepts request = [message.write]) :
      Numbers client request
        (max client.nextWrite (min (message.write + 1) lastWrite))

private theorem Given.numbers
    {source : String} {call : Path → Call} {outcome : Outcome WriteId}
    (given : client.Given source call outcome)
    (accepts : client.accepts request = outcome.result.toOption.toList) :
    client.Numbers request outcome.client.nextWrite := by
  cases given with
  | lost _ => exact .kept accepts
  | sent _ replied =>
      rw [nextWrite_settle]
      refine .given fun id member => ?_
      rw [accepts, toOption_settle, Option.mem_toList] at member
      obtain ⟨_, _, rfl⟩ := Option.map_eq_some_iff.mp member
      rfl

private theorem numbers_handle (client : Client) (request : Request) :
    client.Numbers request (client.handle request).client.nextWrite := by
  have kept (nothing : client.accepts request = [])
      (same : (client.handle request).client.nextWrite = client.nextWrite) :
      client.Numbers request (client.handle request).client.nextWrite := by
    rw [same]
    exact .kept nothing
  cases request with
  | subscribe query kinds =>
      exact kept rfl (client.nextWrite_subscribe query kinds)
  | onCancel listener label =>
      refine kept rfl ?_
      change (onCancel _ _ _).client.nextWrite = _
      unfold onCancel
      split <;> rfl
  | unsubscribe listener =>
      refine kept rfl ?_
      change (unsubscribe _ _).client.nextWrite = _
      unfold unsubscribe
      split <;> rfl
  | set source node => exact (client.given_set source node).numbers rfl
  | update source writes =>
      exact (client.given_update source writes).numbers rfl
  | user message =>
      have moved := client.nextWrite_applyUser message
      cases result : (client.applyUser message).result with
      | error failure =>
          rw [result] at moved
          refine kept ?_ moved
          rw [accepts, result]
          rfl
      | ok events =>
          rw [result] at moved
          change client.Numbers _ (client.applyUser message).client.nextWrite
          rw [moved]
          refine .taken rfl ?_
          rw [accepts, result]
          rfl
  | server message => exact kept rfl (client.nextWrite_applyServer message)

/-- The next number never goes back, and never goes beyond the last number. -/
theorem Numbers.bounds
    {next : WriteId} (numbers : client.Numbers request next)
    (inside : client.nextWrite ≤ lastWrite) :
    client.nextWrite ≤ next ∧ next ≤ lastWrite := by
  cases numbers with
  | kept _ => exact ⟨Nat.le_refl _, inside⟩
  | given _ =>
      exact ⟨Nat.le_min.mpr ⟨Nat.le_succ _, inside⟩, Nat.min_le_right _ _⟩
  | taken _ _ =>
      exact ⟨Nat.le_max_left _ _,
        Nat.max_le.mpr ⟨inside, Nat.min_le_right _ _⟩⟩

private theorem lt_min_succ_or_eq {id : WriteId} (fits : id ≤ lastWrite) :
    id < min (id + 1) lastWrite ∨ id = lastWrite :=
  (Nat.lt_or_eq_of_le fits).imp_left fun below =>
    Nat.lt_min.mpr ⟨Nat.lt_succ_self id, below⟩

/-- The next number stands above a number that is accepted, unless that is the last one. -/
theorem Numbers.ahead
    {next : WriteId} (numbers : client.Numbers request next)
    (inside : client.nextWrite ≤ lastWrite) (sized : request.Sized) :
    ∀ id ∈ client.accepts request, id < next ∨ id = lastWrite := by
  intro id member
  cases numbers with
  | kept nothing =>
      rw [nothing] at member
      cases member
  | given own =>
      rw [own id member]
      exact lt_min_succ_or_eq inside
  | taken isRequest own =>
      subst isRequest
      rw [own] at member
      rw [List.mem_singleton.mp member]
      exact (lt_min_succ_or_eq sized).imp_left fun below =>
        Nat.lt_of_lt_of_le below (Nat.le_max_right _ _)

/-! ## Runs -/

/-- What a client knows of the numbers of the local writes accepted so far: they ascend, and the
next number stands above all of them but the last number there is. -/
structure Numbered (client : Client) (ids : List WriteId) : Prop where
  sound : client.engine.Sound
  counts : client.engine.Counts ids
  ascending : ids.Pairwise (· < ·)
  inside : client.nextWrite ≤ lastWrite
  ahead : ∀ id ∈ ids, id < client.nextWrite ∨ id = lastWrite

theorem Numbered.create (config : ClientConfig) :
    (create config).Numbered [] where
  sound := .create config.engine
  counts := .create config.engine
  ascending := .nil
  inside := (by decide : 1 ≤ lastWrite)
  ahead := fun _ member => absurd member List.not_mem_nil

section

variable {ids : List WriteId} (numbered : client.Numbered ids)

include numbered

private theorem Numbered.le_getLast
    {last : WriteId} (isLast : ids.getLast? = some last) :
    ∀ id ∈ ids, id ≤ last := by
  obtain ⟨others, rfl⟩ := List.getLast?_eq_some_iff.mp isLast
  have below := (List.pairwise_append.mp numbered.ascending).2.2
  intro id member
  rcases List.mem_append.mp member with earlier | isId
  · exact Nat.le_of_lt (below id earlier last (List.mem_singleton_self last))
  · exact Nat.le_of_eq (List.mem_singleton.mp isId)

/-- What the engine answers to a local write. -/
theorem Numbered.answers
    {call : Call} (valid : call.Valid) {write : Write}
    (isWrite : call.write? = some write) {reply : Reply (List Event)}
    (replied : client.engine.reply? call = some reply) :
    (∀ earlier ∈ ids, earlier < write.id) ∧
        client.engine.Answers
          (if client.engine.config.maxPending ≤
              client.engine.pending.writes.length
            then some (.tooManyPending client.engine.config.maxPending)
            else none) reply ∨
      (∃ earlier ∈ ids, write.id ≤ earlier) ∧
        ∃ error, reply = ⟨.error error, client.engine.refused⟩ := by
  have answers :=
    (numbered.counts.reply numbered.sound valid replied).1
  have cause : client.engine.refusal? ids call =
      refusalOfWrite? ids.getLast? client.engine.config.maxPending
        client.engine.pending.writes.length write.id := by
    cases call with
    | userOverwrite _ _ _ _ =>
        cases isWrite
        rfl
    | userMerge _ _ _ =>
        cases isWrite
        rfl
    | _ => cases isWrite
  rw [cause] at answers
  by_cases above : ∀ earlier ∈ ids, earlier < write.id
  · rw [refusalOfWrite?_of_above fun last isLast =>
      above last (List.mem_of_getLast? isLast)] at answers
    exact .inl ⟨above, answers⟩
  · obtain ⟨earlier, member, notBelow⟩ :
        ∃ earlier ∈ ids, ¬ earlier < write.id := by
      simpa using above
    have stale := Nat.le_of_not_lt notBelow
    have isLast :=
      List.getLast?_eq_some_getLast (List.ne_nil_of_mem member)
    rw [refusalOfWrite?_of_stale isLast (Nat.le_trans stale
      (numbered.le_getLast isLast earlier member))] at answers
    exact .inr ⟨⟨earlier, member, stale⟩, _, answers⟩

/-- A call adds one local write at most, and its number stands above all others. -/
theorem Numbered.adds {call : Call} (valid : call.Valid) :
    client.engine.adds call = [] ∨
      ∃ id, client.engine.adds call = [id] ∧ ∀ earlier ∈ ids, earlier < id := by
  cases isWrite : call.write? with
  | none => exact .inl (Engine.adds_of_quiet isWrite)
  | some write =>
      cases replied : client.engine.reply? call with
      | none =>
          refine .inl ?_
          rw [Engine.adds, replied]
      | some reply =>
          rw [Engine.adds_eq isWrite replied]
          rcases numbered.answers valid isWrite replied with
            ⟨above, _⟩ | ⟨_, error, rfl⟩
          · cases reply.result with
            | error _ => exact .inl rfl
            | ok _ => exact .inr ⟨write.id, rfl, above⟩
          · exact .inl rfl

/-- A request keeps the numbers in order. -/
theorem Numbered.handle
    (valid : request.Valid) (sized : request.Sized) :
    (client.handle request).client.Numbered (ids ++ client.accepts request) := by
  have numbers := client.numbers_handle request
  obtain ⟨forward, inside⟩ := numbers.bounds numbered.inside
  have ahead : ∀ id ∈ ids ++ client.accepts request,
      id < (client.handle request).client.nextWrite ∨ id = lastWrite := by
    refine List.forall_mem_append.mpr
      ⟨fun id member => ?_, numbers.ahead numbered.inside sized⟩
    exact (numbered.ahead id member).imp_left fun below =>
      Nat.lt_of_lt_of_le below forward
  have engine := (client.course_handle request).engine_eq
  have accepted := client.accepts_eq request
  cases asked : client.asks? request with
  | none =>
      rw [ask_of_silence asked] at engine
      rw [asked] at accepted
      rw [accepted] at ahead ⊢
      change (client.handle request).client.Numbered (ids ++ [])
      rw [List.append_nil]
      exact ⟨engine ▸ numbered.sound, engine ▸ numbered.counts,
        numbered.ascending, inside, by simpa using ahead⟩
  | some call =>
      have callValid := valid_of_asks? valid asked
      rw [ask_of_asks? asked] at engine
      rw [asked] at accepted
      have counts := numbered.counts.perform numbered.sound callValid
      rw [accepted] at ahead ⊢
      refine ⟨engine ▸ numbered.sound.perform callValid, engine ▸ counts, ?_,
        inside, ahead⟩
      change (ids ++ client.engine.adds call).Pairwise _
      rcases numbered.adds callValid with nothing | ⟨id, added, above⟩
      · rw [nothing, List.append_nil]
        exact numbered.ascending
      · rw [added]
        refine List.pairwise_append.mpr
          ⟨numbered.ascending, List.pairwise_singleton _ _, ?_⟩
        intro earlier member other isOther
        rw [List.mem_singleton.mp isOther]
        exact above earlier member

/-- A run keeps the numbers in order. -/
theorem Numbered.after
    {requests : List Request}
    (valid : ∀ request ∈ requests, request.Valid)
    (sized : ∀ request ∈ requests, request.Sized) :
    (client.after requests).Numbered (ids ++ client.accepted requests) := by
  induction requests generalizing client ids with
  | nil =>
      rw [accepted, List.append_nil]
      exact numbered
  | cons request rest inductionHypothesis =>
      obtain ⟨firstValid, restValid⟩ := List.forall_mem_cons.mp valid
      obtain ⟨firstSized, restSized⟩ := List.forall_mem_cons.mp sized
      rw [accepted, ← List.append_assoc]
      exact inductionHypothesis (numbered.handle firstValid firstSized)
        restValid restSized

/-! ## Local writes after a run -/

/-- Once the last number has been accepted, a local write fails. -/
theorem Numbered.fails_settle
    (exhausted : lastWrite ∈ ids) {call : Call} (valid : call.Valid)
    {write : Write} (isWrite : call.write? = some write)
    (fits : write.id ≤ lastWrite) {reply : Reply (List Event)}
    (replied : client.engine.reply? call = some reply)
    {α : Type} (before : Client) (answer : List Event → α) :
    (before.settle reply answer).Fails client := by
  rcases numbered.answers valid isWrite replied with
    ⟨above, _⟩ | ⟨_, error, rfl⟩
  · exact absurd (above lastWrite exhausted) (Nat.not_lt_of_le fits)
  · exact ⟨⟨_, rfl⟩, ⟨rfl, rfl⟩, rfl, rfl⟩

omit numbered in
private theorem fails_refuse {α : Type} (error : ClientError) :
    (client.refuse error : Outcome α).Fails client :=
  ⟨⟨error, rfl⟩, ⟨rfl, rfl⟩, rfl, rfl⟩

omit numbered in
private theorem fails_attempt
    {α : Type} {argument : Except ClientError α}
    {act : α → Reply (List Event)}
    (called : ∀ value, argument = .ok value →
      (client.settle (act value) id).Fails client) :
    (client.attempt argument act).Fails client := by
  cases argument with
  | error failure => exact fails_refuse failure
  | ok value => exact called value rfl

private theorem Numbered.fails_applyUser
    (exhausted : lastWrite ∈ ids) {message : UserMessage}
    (fits : message.write ≤ lastWrite) :
    (client.applyUser message).Fails client := by
  have attempted : (client.attemptUser message).Fails client := by
    cases message with
    | overwrite write source data =>
        refine fails_attempt fun value read => ?_
        have valid : (Call.userOverwrite value.1 value.2 write true).Valid :=
          canonical_of_decodeOverwrite read
        exact numbered.fails_settle exhausted valid rfl fits rfl client id
    | merge write source children =>
        refine fails_attempt fun value read => ?_
        have valid : (Call.userMerge value.1 value.2 write).Valid :=
          valid_of_decodeMerge read
        exact numbered.fails_settle exhausted valid rfl fits rfl client id
  rw [applyUser_eq]
  obtain ⟨error, failed⟩ := attempted.failed
  dsimp only
  rw [failed]
  exact attempted

section

variable {source : String} {call : Path → Call}
  (valid : ∀ path, (call path).Valid)
  (isWrite : ∀ path, ∃ write, (call path).write? = some write ∧
    write.id = client.nextWrite)
  {outcome : Outcome WriteId} (given : client.Given source call outcome)

include valid isWrite given

private theorem Numbered.answered_of_given
    (above : ∀ earlier ∈ ids, earlier < client.nextWrite) :
    outcome.result = client.answer source := by
  unfold answer
  cases given with
  | lost unread =>
      rw [unread]
      rfl
  | @sent path read reply replied =>
      rw [read]
      obtain ⟨write, isWrite, own⟩ := isWrite path
      rcases numbered.answers (valid path) isWrite replied with
        ⟨_, answers⟩ | ⟨⟨earlier, member, notAbove⟩, _⟩
      · dsimp only
        split
        · rename_i full
          rw [if_pos full] at answers
          have refused : reply = ⟨.error _, client.engine.refused⟩ := answers
          rw [refused]
          rfl
        · rename_i room
          rw [if_neg room] at answers
          obtain ⟨events, accepted⟩ := answers
          rw [settle, accepted]
      · rw [own] at notAbove
        exact absurd (above earlier member) (Nat.not_lt_of_le notAbove)

private theorem Numbered.ascends_of_given (fresh : lastWrite ∉ ids) :
    client.Ascends ids source outcome := by
  have above : ∀ earlier ∈ ids, earlier < client.nextWrite :=
    fun earlier member => (numbered.ahead earlier member).resolve_right
      fun isLast => fresh (isLast ▸ member)
  have answered := numbered.answered_of_given valid isWrite given above
  refine ⟨fun last attempted failed => ?_, fun id isId => ?_, answered⟩
  · rw [answered, answer] at failed
    split at failed
    · cases failed
    · split at failed <;> cases failed
  · rw [answered, answer] at isId
    split at isId
    · cases isId
    · split at isId
      · cases isId
      · cases isId
        exact above

private theorem Numbered.fails_of_given (exhausted : lastWrite ∈ ids) :
    outcome.Fails client := by
  cases given with
  | lost _ => exact fails_refuse _
  | @sent path _ reply replied =>
      obtain ⟨write, isWrite, own⟩ := isWrite path
      exact numbered.fails_settle exhausted (valid path) isWrite
        (own ▸ numbered.inside) replied _ _

end

end

/-- After every run that has not accepted the last number, a local write that is given a number is
not refused for it, and the number stands above all that were accepted. Once the last number has
been accepted, every local write fails, and changes neither the pending writes nor the views. The
next number never goes back and never goes beyond the last one. -/
theorem numbers_run_out
    (config : ClientConfig) {requests : List Request}
    (valid : ∀ request ∈ requests, request.Valid)
    (sized : ∀ request ∈ requests, request.Sized) :
    let client := (create config).after requests
    let ids := (create config).accepted requests
    (lastWrite ∉ ids →
      (∀ source node, node.Canonical →
        client.Ascends ids source (client.set source node)) ∧
      ∀ source writes, (∀ write ∈ writes, write.2.Canonical) →
        client.Ascends ids source (client.update source writes)) ∧
    (lastWrite ∈ ids →
      (∀ source node, node.Canonical →
        (client.set source node).Fails client) ∧
      (∀ source writes, (∀ write ∈ writes, write.2.Canonical) →
        (client.update source writes).Fails client) ∧
      ∀ message, message.write ≤ lastWrite →
        (client.applyUser message).Fails client) ∧
    client.allocate.1 ≤ client.allocate.2.nextWrite ∧
    client.allocate.2.nextWrite ≤ lastWrite ∧
    ∀ request : Request,
      client.nextWrite ≤ (client.handle request).client.nextWrite ∧
        (client.handle request).client.nextWrite ≤ lastWrite := by
  have numbered := (Numbered.create config).after valid sized
  rw [List.nil_append] at numbered
  generalize (create config).after requests = client at numbered
  generalize (create config).accepted requests = ids at numbered
  refine ⟨fun fresh => ⟨fun source node canonical => ?_,
      fun source writes canonical => ?_⟩,
    fun exhausted => ⟨fun source node canonical => ?_,
      fun source writes canonical => ?_,
      fun message fits => numbered.fails_applyUser exhausted fits⟩,
    Nat.le_min.mpr ⟨Nat.le_succ _, numbered.inside⟩, Nat.min_le_right _ _,
    fun request => (client.numbers_handle request).bounds numbered.inside⟩
  · refine numbered.ascends_of_given ?_ ?_ (client.given_set source node) fresh
    · exact fun _ => canonical
    · exact fun _ => ⟨_, rfl, rfl⟩
  · refine numbered.ascends_of_given ?_ ?_ (client.given_update source writes)
      fresh
    · exact fun _ => Overlay.Valid.ofWrites canonical
    · exact fun _ => ⟨_, rfl, rfl⟩
  · refine numbered.fails_of_given ?_ ?_ (client.given_set source node) exhausted
    · exact fun _ => canonical
    · exact fun _ => ⟨_, rfl, rfl⟩
  · refine numbered.fails_of_given ?_ ?_ (client.given_update source writes)
      exhausted
    · exact fun _ => Overlay.Valid.ofWrites canonical
    · exact fun _ => ⟨_, rfl, rfl⟩

def numberedWrite (number : WriteId) : Request :=
  .user (.overwrite number "a" (.bool true))

def unlabelled : ClientConfig := { engine := { session := "" } }

/-- Behind a write that brings a number a further write is numbered higher, and behind one that
brings the last number a further write fails. -/
theorem numbers_run_out_at_last :
    let fresh := (create unlabelled).after [numberedWrite 5]
    let exhausted := (create unlabelled).after
      [numberedWrite 5, numberedWrite lastWrite]
    fresh.Ascends [5] "b" (fresh.set "b" .empty) ∧
      (exhausted.set "b" .empty).Fails exhausted := by
  have valid (number : WriteId) : (numberedWrite number).Valid := trivial
  have sized (number : WriteId) (fits : number ≤ lastWrite) :
      (numberedWrite number).Sized :=
    fits
  have one : (create unlabelled).accepted [numberedWrite 5] = [5] := by
    cbv
  have two : (create unlabelled).accepted
      [numberedWrite 5, numberedWrite lastWrite] = [5, lastWrite] := by
    cbv
  obtain ⟨ascends, _⟩ := @numbers_run_out unlabelled [numberedWrite 5]
    (List.forall_mem_singleton.mpr (valid 5))
    (List.forall_mem_singleton.mpr (sized 5 (by decide)))
  obtain ⟨_, fails, _⟩ := @numbers_run_out unlabelled
    [numberedWrite 5, numberedWrite lastWrite]
    (List.forall_mem_cons.mpr
      ⟨valid 5, List.forall_mem_singleton.mpr (valid lastWrite)⟩)
    (List.forall_mem_cons.mpr ⟨sized 5 (by decide),
      List.forall_mem_singleton.mpr (sized lastWrite (Nat.le_refl _))⟩)
  rw [one] at ascends
  rw [two] at fails
  exact ⟨(ascends (by decide)).1 "b" .empty Node.Canonical.empty,
    (fails (by decide)).1 "b" .empty Node.Canonical.empty⟩

end Client

end Replica
