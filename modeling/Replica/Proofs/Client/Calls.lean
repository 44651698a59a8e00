import Replica.Client.Basic
import Replica.Proofs.Engine.Call
import Replica.Proofs.Node.Read

/-!
# The requests of a client

A client serves the requests of an application and the messages of the server. Each of them makes
one call to the engine at most, and a valid one: the nodes of messages are read from documents, and
the overlays are built from such nodes. What holds of the engine after every run of valid calls
therefore holds of the engine of every client.
-/

namespace Replica

/-- What a client is asked to do. -/
inductive Request where
  | subscribe (query : Query) (kinds : List ChangeKind)
  | onCancel (listener : ListenerId) (label : String)
  | unsubscribe (listener : ListenerId)
  | set (source : String) (node : Node)
  | update (source : String) (writes : List (Path × Node))
  | user (message : UserMessage)
  | server (message : ServerMessage)

/-- The nodes that an application hands over are canonical. -/
def Request.Valid : Request → Prop
  | .set _ node => node.Canonical
  | .update _ writes => ∀ write ∈ writes, write.2.Canonical
  | _ => True

/-- What a request leads to, apart from its answer. -/
structure Response where
  delivered : List Event
  cancelled : List Cancellation
  client : Client

def Outcome.response {α : Type} (outcome : Outcome α) : Response :=
  ⟨outcome.delivered, outcome.cancelled, outcome.client⟩

namespace Client

def handle (client : Client) : Request → Response
  | .subscribe query kinds => (client.subscribe query kinds).response
  | .onCancel listener label => (client.onCancel listener label).response
  | .unsubscribe listener => (client.unsubscribe listener).response
  | .set source node => (client.set source node).response
  | .update source writes => (client.update source writes).response
  | .user message => (client.applyUser message).response
  | .server message => (client.applyServer message).response

def after (client : Client) (requests : List Request) : Client :=
  requests.foldl (fun current request => (current.handle request).client)
    client

/-- The events that a run hands to listeners, in the order of delivery. -/
def delivered : Client → List Request → List Event
  | _, [] => []
  | client, request :: rest =>
      (client.handle request).delivered ++
        delivered (client.handle request).client rest

/-- The call to the engine that a request makes, if it makes one. -/
def asks? (client : Client) : Request → Option Call
  | .subscribe query kinds =>
      some (.register query ⟨client.nextListener, kinds⟩)
  | .onCancel _ _ => none
  | .unsubscribe listener =>
      (Sorted.find? listener client.listeners).map fun entry =>
        .unregister entry.query listener
  | .set source node =>
      (Path.parse source).toOption.map fun path =>
        .userOverwrite path node client.nextWrite true
  | .update source writes =>
      (Path.parse source).toOption.map fun path =>
        .userMerge path (.ofWrites writes) client.nextWrite
  | .user (.overwrite write source data) =>
      (decodeOverwrite source data).toOption.map fun value =>
        .userOverwrite value.1 value.2 write true
  | .user (.merge write source children) =>
      (decodeMerge source children).toOption.map fun value =>
        .userMerge value.1 value.2 write
  | .server (.overwrite source data) =>
      (decodeOverwrite source data).toOption.map fun value =>
        .serverOverwrite value.1 value.2
  | .server (.merge source children) =>
      (decodeMerge source children).toOption.map fun value =>
        .serverMerge value.1 value.2
  | .server (.acknowledge write rejected) =>
      some (.acknowledge write rejected)
  | .server (.listenComplete source) =>
      (decoded (Path.parse source)).toOption.map .listenComplete
  | .server (.listenRevoked source _) =>
      (decoded (Path.parse source)).toOption.map .revoke

/-- What the engine answers to a request: the events that it raises, and the engine after it. -/
def ask (client : Client) (request : Request) : List Event × Engine :=
  match client.asks? request with
  | some call => client.engine.perform call
  | none => ([], client.engine)

variable {client : Client} {request : Request}

theorem ask_of_asks?
    {call : Call} (asked : client.asks? request = some call) :
    client.ask request = client.engine.perform call := by
  rw [ask, asked]

theorem ask_of_silence (silent : client.asks? request = none) :
    client.ask request = ([], client.engine) := by
  rw [ask, silent]

/-! ## Messages -/

private theorem eq_ok_of_toOption
    {α ε : Type} {result : Except ε α} {value : α}
    (isValue : result.toOption = some value) : result = .ok value := by
  cases result with
  | error failure => cases isValue
  | ok other =>
      cases isValue
      rfl

private theorem eq_ok_of_decoded
    {α : Type} {result : Except DataError α} {value : α}
    (isDecoded : decoded result = .ok value) : result = .ok value := by
  cases result with
  | error failure => cases isDecoded
  | ok other =>
      cases isDecoded
      rfl

private theorem canonical_of_decodeChildren
    {children : List (String × Json)} {writes : List (Path × Node)}
    (read : decodeChildren children = .ok writes) :
    ∀ write ∈ writes, write.2.Canonical := by
  induction children generalizing writes with
  | nil =>
      cases read
      exact fun _ member => absurd member List.not_mem_nil
  | cons entry rest inductionHypothesis =>
      obtain ⟨path, _, read⟩ := bind_eq_ok read
      obtain ⟨node, nodeRead, read⟩ := bind_eq_ok read
      obtain ⟨others, othersRead, read⟩ := bind_eq_ok read
      cases read
      exact List.forall_mem_cons.mpr
        ⟨Node.canonical_of_ofJson nodeRead,
          inductionHypothesis othersRead⟩

theorem canonical_of_decodeOverwrite
    {source : String} {data : Json} {write : Path × Node}
    (read : decodeOverwrite source data = .ok write) :
    write.2.Canonical := by
  obtain ⟨path, _, read⟩ := bind_eq_ok read
  obtain ⟨node, nodeRead, read⟩ := bind_eq_ok read
  cases read
  exact Node.canonical_of_ofJson (eq_ok_of_decoded nodeRead)

theorem valid_of_decodeMerge
    {source : String} {children : List (String × Json)}
    {merge : Path × Overlay}
    (read : decodeMerge source children = .ok merge) :
    merge.2.Valid := by
  obtain ⟨path, _, read⟩ := bind_eq_ok read
  obtain ⟨writes, writesRead, read⟩ := bind_eq_ok read
  cases read
  exact Overlay.Valid.ofWrites
    (canonical_of_decodeChildren (eq_ok_of_decoded writesRead))

theorem valid_of_asks?
    (valid : request.Valid) {call : Call}
    (asked : client.asks? request = some call) : call.Valid := by
  cases request with
  | subscribe query kinds =>
      cases asked
      trivial
  | onCancel listener label => cases asked
  | unsubscribe listener =>
      obtain ⟨entry, _, rfl⟩ := Option.map_eq_some_iff.mp asked
      trivial
  | set source node =>
      obtain ⟨path, _, rfl⟩ := Option.map_eq_some_iff.mp asked
      exact valid
  | update source writes =>
      obtain ⟨path, _, rfl⟩ := Option.map_eq_some_iff.mp asked
      exact Overlay.Valid.ofWrites valid
  | user message =>
      cases message with
      | overwrite write source data =>
          obtain ⟨value, read, rfl⟩ := Option.map_eq_some_iff.mp asked
          exact canonical_of_decodeOverwrite (eq_ok_of_toOption read)
      | merge write source children =>
          obtain ⟨value, read, rfl⟩ := Option.map_eq_some_iff.mp asked
          exact valid_of_decodeMerge (eq_ok_of_toOption read)
  | server message =>
      cases message with
      | overwrite source data =>
          obtain ⟨value, read, rfl⟩ := Option.map_eq_some_iff.mp asked
          exact canonical_of_decodeOverwrite (eq_ok_of_toOption read)
      | merge source children =>
          obtain ⟨value, read, rfl⟩ := Option.map_eq_some_iff.mp asked
          exact valid_of_decodeMerge (eq_ok_of_toOption read)
      | acknowledge write rejected =>
          cases asked
          trivial
      | listenComplete source =>
          obtain ⟨path, _, rfl⟩ := Option.map_eq_some_iff.mp asked
          trivial
      | listenRevoked source code =>
          obtain ⟨path, _, rfl⟩ := Option.map_eq_some_iff.mp asked
          trivial

/-! ## One request -/

/-- The listeners that a client holds, with their queries. -/
def queries (client : Client) : List (ListenerId × Query) :=
  client.listeners.map fun entry => (entry.1, entry.2.query)

/-- What a request can do. The numbers of writes are left open. -/
inductive Course (client : Client) (request : Request) : Response → Prop where
  /-- Nothing happens to the engine, and nobody comes or goes. -/
  | apart {next : Client}
      (asked : client.ask request = ([], client.engine))
      (engine : next.engine = client.engine)
      (queries : next.queries = client.queries)
      (numbers : client.nextListener ≤ next.nextListener) :
      Course client request ⟨[], [], next⟩
  /-- The engine takes an operation, and its events go to the listeners. -/
  | served {call : Call} {next : Client}
      (asked : client.asks? request = some call)
      (operates : call.listens = false)
      (engine : next.engine = (client.engine.perform call).2)
      (listeners : next.listeners = client.listeners)
      (numbers : next.nextListener = client.nextListener) :
      Course client request
        ⟨client.deliverable (client.engine.perform call).1, [], next⟩
  | joined {query : Query} {kinds : List ChangeKind} {next : Client}
      (isRequest : request = .subscribe query kinds)
      (sensible : query.selection.validate = .ok ())
      (engine : next.engine = (client.ask request).2)
      (listeners : next.listeners =
        Sorted.insert client.nextListener { query := query }
          client.listeners)
      (numbers : next.nextListener = client.nextListener + 1) :
      Course client request
        ⟨next.deliverable (client.ask request).1, [], next⟩
  | left {listener : ListenerId} {entry : Listener} {next : Client}
      (isRequest : request = .unsubscribe listener)
      (found : Sorted.find? listener client.listeners = some entry)
      (engine :
        next.engine = (client.engine.unregister entry.query listener).2)
      (listeners : next.listeners = Sorted.erase listener client.listeners)
      (numbers : next.nextListener = client.nextListener) :
      Course client request ⟨[], [], next⟩
  | revoked {source : String} {code : RevocationCode} {path : Path}
      {told : List Cancellation} {next : Client}
      (isRequest : request = .server (.listenRevoked source code))
      (read : Path.parse source = .ok path)
      (engine : next.engine = (client.engine.revoke path).2)
      (ended : cancelAll (.revoked code source)
        ((client.engine.revoke path).1.flatMap (·.2)) client.listeners =
          (told, next.listeners))
      (numbers : next.nextListener = client.nextListener) :
      Course client request ⟨[], told, next⟩

private theorem course_refuse
    {α : Type} (silent : client.asks? request = none)
    (error : ClientError) :
    client.Course request (client.refuse error : Outcome α).response :=
  .apart (ask_of_silence silent) rfl rfl (Nat.le_refl _)

/-- A settled reply hands the events of the call to the listeners. -/
theorem response_settle
    {α : Type} (client : Client) (reply : Reply (List Event))
    (answer : List Event → α) :
    (client.settle reply answer).response =
      ⟨client.deliverable reply.outcome.1, [],
        { client with engine := reply.outcome.2 }⟩ := by
  unfold settle Reply.outcome
  cases reply.result with
  | ok events => rfl
  | error failure => rfl

private theorem course_settle
    {α : Type} {call : Call} (asked : client.asks? request = some call)
    (operates : call.listens = false) {reply : Reply (List Event)}
    (isReply : reply.outcome = client.engine.perform call)
    (before : Client) (listeners : before.listeners = client.listeners)
    (numbers : before.nextListener = client.nextListener)
    (answer : List Event → α) :
    client.Course request (before.settle reply answer).response := by
  have same : before.deliverable = client.deliverable := by
    funext events
    rw [deliverable, listeners, deliverable]
  rw [response_settle, isReply, same]
  exact .served asked operates rfl listeners numbers

private theorem course_attempt
    {α : Type} {argument : Except ClientError α}
    {act : α → Reply (List Event)} (call : α → Call)
    (asked : client.asks? request = argument.toOption.map call)
    (operates : ∀ value, (call value).listens = false)
    (isCall : ∀ value,
      (act value).outcome = client.engine.perform (call value)) :
    client.Course request (client.attempt argument act).response := by
  cases argument with
  | error failure => exact course_refuse asked failure
  | ok value =>
      exact course_settle asked (operates value) (isCall value) client rfl
        rfl id

private theorem course_subscribe (query : Query) (kinds : List ChangeKind) :
    client.Course (.subscribe query kinds)
      (client.subscribe query kinds).response := by
  let call := Call.register query ⟨client.nextListener, kinds⟩
  have asked : client.ask (.subscribe query kinds) =
      client.engine.perform call :=
    ask_of_asks? rfl
  unfold subscribe
  dsimp only
  cases sensible : query.selection.validate with
  | error failure =>
      have refused :
          client.engine.register query ⟨client.nextListener, kinds⟩ =
            ⟨.error failure, client.engine⟩ := by
        rw [Engine.register, sensible]
      have nothing : client.engine.perform call = ([], client.engine) := by
        rw [Engine.perform, refused]
        rfl
      rw [refused]
      exact .apart (asked.trans nothing) rfl rfl (Nat.le_succ _)
  | ok _ =>
      have answered : ∃ events,
          (client.engine.register query
            ⟨client.nextListener, kinds⟩).result = .ok events := by
        rw [Engine.register, sensible]
        dsimp only
        split
        · exact ⟨_, rfl⟩
        · exact ⟨_, rfl⟩
      obtain ⟨events, answered⟩ := answered
      let next : Client :=
        { client with
          engine := (client.engine.perform call).2
          nextListener := client.nextListener + 1
          listeners := Sorted.insert client.nextListener { query := query }
            client.listeners }
      have joined : client.Course (.subscribe query kinds)
          ⟨next.deliverable (client.ask (.subscribe query kinds)).1, [],
            next⟩ :=
        .joined rfl sensible (congrArg Prod.snd asked.symm) rfl rfl
      rw [asked] at joined
      rw [answered]
      dsimp only
      rw [response_settle]
      exact joined

private theorem course_onCancel (listener : ListenerId) (label : String) :
    client.Course (.onCancel listener label)
      (client.onCancel listener label).response := by
  unfold onCancel
  cases found : Sorted.find? listener client.listeners with
  | none => exact course_refuse rfl _
  | some entry =>
      refine .apart (ask_of_silence rfl) rfl ?_ (Nat.le_refl _)
      exact Sorted.map_insert_of_present _ (by rfl) found

private theorem course_unsubscribe (listener : ListenerId) :
    client.Course (.unsubscribe listener)
      (client.unsubscribe listener).response := by
  unfold unsubscribe
  cases found : Sorted.find? listener client.listeners with
  | none =>
      refine course_refuse ?_ _
      rw [asks?, found]
      rfl
  | some entry => exact .left rfl found rfl rfl rfl

private theorem course_set (source : String) (node : Node) :
    client.Course (.set source node) (client.set source node).response := by
  unfold set
  cases read : Path.parse source with
  | error failure =>
      refine course_refuse ?_ _
      rw [asks?, read]
      rfl
  | ok path =>
      have asked : client.asks? (.set source node) =
          some (.userOverwrite path node client.nextWrite true) := by
        rw [asks?, read]
        rfl
      exact course_settle asked rfl rfl client.allocate.2 rfl rfl _

private theorem course_update (source : String) (writes : List (Path × Node)) :
    client.Course (.update source writes)
      (client.update source writes).response := by
  unfold update
  cases read : Path.parse source with
  | error failure =>
      refine course_refuse ?_ _
      rw [asks?, read]
      rfl
  | ok path =>
      have asked : client.asks? (.update source writes) =
          some (.userMerge path (.ofWrites writes) client.nextWrite) := by
        rw [asks?, read]
        rfl
      exact course_settle asked rfl rfl client.allocate.2 rfl rfl _

/-- The number of the next write is of no account. -/
theorem Course.skipWrite
    {delivered : List Event} {cancelled : List Cancellation} {next : Client}
    (course : client.Course request ⟨delivered, cancelled, next⟩)
    (write : WriteId) :
    client.Course request
      ⟨delivered, cancelled, next.skipWrite write⟩ := by
  cases course with
  | apart asked engine queries numbers =>
      exact .apart asked engine queries numbers
  | served asked operates engine listeners numbers =>
      exact .served asked operates engine listeners numbers
  | joined isRequest sensible engine listeners numbers =>
      have joined : client.Course request
          ⟨(next.skipWrite write).deliverable (client.ask request).1, [],
            next.skipWrite write⟩ :=
        .joined isRequest sensible engine listeners numbers
      exact joined
  | left isRequest found engine listeners numbers =>
      exact .left isRequest found engine listeners numbers
  | revoked isRequest read engine ended numbers =>
      exact .revoked isRequest read engine ended numbers

private theorem course_applyUser (message : UserMessage) :
    client.Course (.user message) (client.applyUser message).response := by
  unfold applyUser
  cases message with
  | overwrite write source data =>
      have course : client.Course (.user (.overwrite write source data)) _ :=
        course_attempt
          (fun value : Path × Node =>
            .userOverwrite value.1 value.2 write true)
          rfl (fun _ => rfl) fun _ => rfl
      dsimp only
      split
      · exact course.skipWrite _
      · exact course
  | merge write source children =>
      have course : client.Course (.user (.merge write source children)) _ :=
        course_attempt
          (fun value : Path × Overlay => .userMerge value.1 value.2 write)
          rfl (fun _ => rfl) fun _ => rfl
      dsimp only
      split
      · exact course.skipWrite _
      · exact course

private theorem course_revoke (source : String) (code : RevocationCode) :
    client.Course (.server (.listenRevoked source code))
      (client.revoke source code).response := by
  unfold revoke
  cases read : decoded (Path.parse source) with
  | error failure =>
      refine course_refuse ?_ _
      rw [asks?, read]
      rfl
  | ok path =>
      exact .revoked rfl (eq_ok_of_decoded read) rfl rfl rfl

private theorem course_applyServer (message : ServerMessage) :
    client.Course (.server message)
      (client.applyServer message).response := by
  cases message with
  | overwrite source data =>
      exact course_attempt (fun value => .serverOverwrite value.1 value.2)
        rfl (fun _ => rfl) fun _ => rfl
  | merge source children =>
      exact course_attempt (fun value => .serverMerge value.1 value.2) rfl
        (fun _ => rfl) fun _ => rfl
  | acknowledge write rejected =>
      exact course_settle rfl rfl rfl client rfl rfl _
  | listenComplete source =>
      exact course_attempt .listenComplete rfl (fun _ => rfl) fun _ => rfl
  | listenRevoked source code => exact course_revoke source code

/-- Every request takes one of the courses. -/
theorem course_handle (client : Client) (request : Request) :
    client.Course request (client.handle request) := by
  cases request with
  | subscribe query kinds => exact course_subscribe query kinds
  | onCancel listener label => exact course_onCancel listener label
  | unsubscribe listener => exact course_unsubscribe listener
  | set source node => exact course_set source node
  | update source writes => exact course_update source writes
  | user message => exact course_applyUser message
  | server message => exact course_applyServer message

/-! ## The engine of a client -/

/-- The engine is touched by the calls to it only. -/
theorem Course.engine_eq
    {response : Response} (course : client.Course request response) :
    response.client.engine = (client.ask request).2 := by
  cases course with
  | apart asked engine _ _ => exact engine.trans (by rw [asked])
  | served asked _ engine _ _ =>
      exact engine.trans (by rw [ask_of_asks? asked])
  | joined _ _ engine _ _ => exact engine
  | left isRequest found engine _ _ =>
      subst isRequest
      refine engine.trans ?_
      rw [ask, asks?, found]
      rfl
  | revoked isRequest read engine _ _ =>
      subst isRequest
      refine engine.trans ?_
      rw [ask, asks?, read]
      rfl

/-- The engine of a client is the result of valid calls. -/
theorem engine_after
    (client : Client) {requests : List Request}
    (valid : ∀ request ∈ requests, request.Valid) :
    ∃ calls : List Call, (∀ call ∈ calls, call.Valid) ∧
      (client.after requests).engine = client.engine.after calls := by
  induction requests generalizing client with
  | nil => exact ⟨[], fun _ member => absurd member List.not_mem_nil, rfl⟩
  | cons request rest inductionHypothesis =>
      obtain ⟨first, others⟩ := List.forall_mem_cons.mp valid
      obtain ⟨calls, callsValid, result⟩ :=
        inductionHypothesis (client.handle request).client others
      have engine := (client.course_handle request).engine_eq
      cases asked : client.asks? request with
      | none =>
          rw [ask_of_silence asked] at engine
          exact ⟨calls, callsValid, result.trans (by rw [engine])⟩
      | some call =>
          rw [ask_of_asks? asked] at engine
          refine ⟨call :: calls, List.forall_mem_cons.mpr
            ⟨valid_of_asks? first asked, callsValid⟩, result.trans ?_⟩
          rw [engine]
          rfl

end Client

end Replica
