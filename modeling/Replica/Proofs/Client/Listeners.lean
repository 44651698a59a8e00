import Mathlib.Data.List.Flatten
import Replica.Proofs.Client.Calls
import Replica.Proofs.Engine.Attached

/-!
# The listeners of a client

The client and its engine both know who listens to what. Whatever happens, they agree: the view of
a query has exactly the listeners that the client holds for it, in the order in which they came. So
no event of the engine gets lost, and none reaches a listener that has left or was ended.
-/

namespace Replica

namespace Client

/-- The listeners that the client holds for the queries in a place. -/
def heldAt (client : Client) (path : Path) (identifier : String) :
    List ListenerId :=
  (client.queries.filter fun entry => entry.2.isAt path identifier).map
    (·.1)

/-- The label under which a listener wants to hear of its end. -/
def label? (client : Client) (listener : ListenerId) : Option String :=
  (Sorted.find? listener client.listeners).bind (·.onCancel?)

variable {client : Client} {request : Request} {listener : ListenerId}

private theorem find?_queries :
    Sorted.find? listener client.queries =
      (Sorted.find? listener client.listeners).map (·.query) := by
  rw [queries]
  induction client.listeners with
  | nil => rfl
  | cons entry rest inductionHypothesis =>
      rw [List.map_cons, Sorted.find?, Sorted.find?]
      cases compare listener entry.1 with
      | lt => rfl
      | eq => rfl
      | gt => exact inductionHypothesis

private theorem contains_iff :
    Sorted.contains listener client.listeners = true ↔
      ∃ query, Sorted.find? listener client.queries = some query := by
  rw [Sorted.contains, find?_queries, ← Option.isSome_iff_exists,
    Option.isSome_map]

/-- The client and the engine agree about the listeners. -/
structure Agrees (client : Client) : Prop where
  sound : client.engine.Sound
  tended : client.engine.Tended
  ascending : Sorted.Ascending client.queries
  numbered : ∀ entry ∈ client.queries, entry.1 < client.nextListener
  attached : ∀ path identifier,
    client.engine.sites.attached path identifier =
      client.heldAt path identifier

private theorem agrees_create (config : ClientConfig) :
    (create config).Agrees where
  sound := .create config.engine
  tended := Engine.tended_create config.engine
  ascending := List.Pairwise.nil
  numbered := fun _ member => absurd member List.not_mem_nil
  attached := fun _ _ => rfl

private theorem Agrees.ascending_listeners (agrees : client.Agrees) :
    Sorted.Ascending client.listeners :=
  List.pairwise_map.mp agrees.ascending

private theorem Agrees.mem_heldAt
    (agrees : client.Agrees) {path : Path} {identifier : String} :
    listener ∈ client.heldAt path identifier ↔
      ∃ query, Sorted.find? listener client.queries = some query ∧
        query.isAt path identifier = true := by
  rw [heldAt, List.mem_map]
  constructor
  · rintro ⟨⟨_, query⟩, member, rfl⟩
    obtain ⟨held, here⟩ := List.mem_filter.mp member
    exact ⟨query, Sorted.find?_of_mem agrees.ascending held, here⟩
  · rintro ⟨query, found, here⟩
    exact ⟨(listener, query), List.mem_filter.mpr
      ⟨Sorted.mem_of_find?_eq_some found, here⟩, rfl⟩

/-- Every listener stands in the place of its query and in no other one. -/
theorem Agrees.mem_attached
    (agrees : client.Agrees) {path : Path} {identifier : String} :
    listener ∈ client.engine.sites.attached path identifier ↔
      ∃ query, Sorted.find? listener client.queries = some query ∧
        path = query.path ∧ identifier = query.identifier := by
  rw [agrees.attached, agrees.mem_heldAt]
  exact exists_congr fun query => and_congr_right fun _ => Query.isAt_iff

private theorem Agrees.nodup_attached
    (agrees : client.Agrees) (path : Path) (identifier : String) :
    (client.engine.sites.attached path identifier).Nodup := by
  rw [agrees.attached]
  exact Sorted.nodup_keys
    (Sorted.ascending_filter _ agrees.ascending)

private theorem Agrees.attached_iff (agrees : client.Agrees) :
    (∃ path identifier,
        listener ∈ client.engine.sites.attached path identifier) ↔
      Sorted.contains listener client.listeners = true := by
  rw [contains_iff]
  constructor
  · rintro ⟨path, identifier, attached⟩
    obtain ⟨query, found, _⟩ := agrees.mem_attached.mp attached
    exact ⟨query, found⟩
  · rintro ⟨query, found⟩
    exact ⟨query.path, query.identifier,
      agrees.mem_attached.mpr ⟨query, found, rfl, rfl⟩⟩

/-! ## Revocation -/

private theorem Agrees.mem_endedAt (agrees : client.Agrees) (above : Path) :
    listener ∈ client.engine.endedAt above ↔
      ∃ query, Sorted.find? listener client.queries = some query ∧
        Path.contains above query.path = true := by
  have keeps : ∀ path identifier,
      Sites.attached (client.engine.sites.filter fun entry =>
          Path.contains above entry.1) path identifier =
        if Path.contains above path then
          client.engine.sites.attached path identifier
        else [] := by
    intro path identifier
    rw [Sites.attached, Sites.attached, Sites.lookup?, Sites.lookup?,
      Sorted.find?_filter _ agrees.sound.sites.ascending]
    cases Sorted.find? path client.engine.sites with
    | none => exact (ite_self _).symm
    | some site =>
        cases contained : Path.contains above path with
        | false => simp [Option.filter, contained]
        | true => simp [Option.filter, contained]
  have sound : Sites.Sound (client.engine.sites.filter fun entry =>
      Path.contains above entry.1) :=
    (Sites.narrows_sublist agrees.sound.sites List.filter_sublist).sound
  rw [Engine.endedAt_eq, Sites.mem_everyone sound]
  constructor
  · rintro ⟨path, identifier, member⟩
    rw [keeps] at member
    split at member
    · rename_i contained
      obtain ⟨query, found, rfl, rfl⟩ := agrees.mem_attached.mp member
      exact ⟨query, found, contained⟩
    · cases member
  · rintro ⟨query, found, contained⟩
    refine ⟨query.path, query.identifier, ?_⟩
    rw [keeps, if_pos contained]
    exact agrees.mem_attached.mpr ⟨query, found, rfl, rfl⟩

private theorem Agrees.nodup_endedAt (agrees : client.Agrees) (above : Path) :
    (client.engine.endedAt above).Nodup := by
  have all : client.engine.sites.everyone.Nodup := by
    refine Sites.nodup_everyone agrees.sound.sites agrees.nodup_attached ?_
    intro listener path identifier otherPath other first second
    obtain ⟨query, found, rfl, rfl⟩ := agrees.mem_attached.mp first
    obtain ⟨_, same, rfl, rfl⟩ := agrees.mem_attached.mp second
    cases found.symm.trans same
    exact ⟨rfl, rfl⟩
  rw [Engine.endedAt_eq]
  exact all.sublist (List.filter_sublist.flatMap _)

/-- Distinct listeners are ended one by one: each is told once if it wants to be, and all others
stay. -/
theorem cancelAll_eq
    (error : ClientError) {ended : List ListenerId}
    (distinct : ended.Nodup) {listeners : List (ListenerId × Listener)}
    (ascending : Sorted.Ascending listeners) :
    cancelAll error ended listeners =
      (ended.filterMap fun listener =>
          ((Sorted.find? listener listeners).bind (·.onCancel?)).map
            fun label => ⟨label, error⟩,
        listeners.filter fun entry => !ended.contains entry.1) := by
  induction ended generalizing listeners with
  | nil => simp [cancelAll]
  | cons first rest inductionHypothesis =>
      obtain ⟨notLater, restDistinct⟩ := List.nodup_cons.mp distinct
      have others := inductionHypothesis restDistinct
        (Sorted.ascending_erase ascending : Sorted.Ascending
          (Sorted.erase first listeners))
      have still : ∀ listener ∈ rest,
          Sorted.find? listener (Sorted.erase first listeners) =
            Sorted.find? listener listeners := by
        intro listener member
        refine Sorted.find?_erase_of_ne ?_ ascending
        rintro rfl
        exact notLater member
      rw [cancelAll, others]
      dsimp only
      refine Prod.ext ?_ ?_
      · dsimp only
        rw [List.filterMap_cons]
        have later := List.filterMap_congr fun listener member =>
          congrArg (fun found? : Option Listener =>
            (found?.bind (·.onCancel?)).map fun label =>
              (⟨label, error⟩ : Cancellation)) (still listener member)
        rw [later]
        cases (Sorted.find? first listeners).bind (·.onCancel?) with
        | none => rfl
        | some label => rfl
      · dsimp only
        rw [Sorted.erase_eq_filter first ascending, List.filter_filter]
        refine List.filter_congr fun entry _ => ?_
        rw [List.contains_cons, Bool.not_or, Bool.and_comm]
        rfl

/-! ## One request -/

private theorem Agrees.listener_of_mem
    (agrees : client.Agrees) {entry : ListenerId × Listener}
    (member : entry ∈ client.listeners) :
    Sorted.find? entry.1 client.queries = some entry.2.query :=
  Sorted.find?_of_mem agrees.ascending (List.mem_map_of_mem member)

private theorem Agrees.queries_joined
    (agrees : client.Agrees) {query : Query} {next : Client}
    (listeners : next.listeners =
      Sorted.insert client.nextListener { query := query }
        client.listeners) :
    next.queries = client.queries ++ [(client.nextListener, query)] := by
  have above : ∀ entry ∈ client.listeners,
      compare entry.1 client.nextListener = .lt := fun entry member =>
    Nat.compare_eq_lt.mpr (agrees.numbered (entry.1, entry.2.query)
      (List.mem_map_of_mem member))
  rw [queries, listeners, Sorted.insert_of_above above, List.map_append]
  rfl

private theorem queries_left
    {next : Client}
    (listeners : next.listeners =
      client.listeners.filter (·.1 != listener)) :
    next.queries = client.queries.filter (·.1 != listener) := by
  rw [queries, listeners, queries, List.filter_map]
  rfl

private theorem Agrees.listeners_revoked
    (agrees : client.Agrees) {path : Path} {error : ClientError}
    {told : List Cancellation} {left : List (ListenerId × Listener)}
    (ended : cancelAll error (client.engine.endedAt path)
      client.listeners = (told, left)) :
    left = client.listeners.filter fun entry =>
      !Path.contains path entry.2.query.path := by
  have parts := cancelAll_eq error (agrees.nodup_endedAt path)
    agrees.ascending_listeners
  have remaining := congrArg Prod.snd (ended.symm.trans parts)
  dsimp only at remaining
  rw [remaining]
  refine List.filter_congr fun entry member => ?_
  refine congrArg _ (Bool.eq_iff_iff.mpr ?_)
  rw [List.contains_iff_mem, agrees.mem_endedAt,
    agrees.listener_of_mem member]
  simp

private theorem heldAt_joined
    {query : Query} {next : Client}
    (queries : next.queries = client.queries ++ [(listener, query)])
    (path : Path) (identifier : String) :
    next.heldAt path identifier = client.heldAt path identifier ++
      if query.isAt path identifier then [listener] else [] := by
  rw [heldAt, heldAt, queries, List.filter_append, List.map_append]
  refine congrArg (_ ++ ·) ?_
  cases here : query.isAt path identifier with
  | false => simp [here]
  | true => simp [here]

private theorem Agrees.heldAt_left
    (agrees : client.Agrees) {query : Query} {next : Client}
    (found : Sorted.find? listener client.queries = some query)
    (queries : next.queries = client.queries.filter (·.1 != listener))
    (path : Path) (identifier : String) :
    next.heldAt path identifier =
      (client.heldAt path identifier).filter fun other =>
        !(query.isAt path identifier && other == listener) := by
  rw [heldAt, heldAt, queries, List.filter_map, List.filter_filter,
    List.filter_filter]
  refine congrArg _ (List.filter_congr fun other member => ?_)
  by_cases same : other.1 = listener
  · have isOther := Sorted.find?_of_mem agrees.ascending member
    rw [same, found] at isOther
    cases isOther
    simp [same]
  · have different : (other.1 == listener) = false :=
      beq_eq_false_iff_ne.mpr same
    simp [different, bne]

private theorem heldAt_revoked
    {above : Path} {next : Client}
    (queries : next.queries = client.queries.filter fun entry =>
      !Path.contains above entry.2.path)
    (path : Path) (identifier : String) :
    next.heldAt path identifier =
      if Path.contains above path then []
      else client.heldAt path identifier := by
  have located : ∀ entry : ListenerId × Query,
      entry.2.isAt path identifier = true → entry.2.path = path :=
    fun entry here => (Query.isAt_iff.mp here).1.symm
  rw [heldAt, heldAt, queries, List.filter_filter]
  split
  · rename_i contained
    refine List.map_eq_nil_iff.mpr (List.filter_eq_nil_iff.mpr ?_)
    intro entry _ both
    obtain ⟨here, outside⟩ := Bool.and_eq_true_iff.mp both
    rw [located entry here, contained] at outside
    cases outside
  · rename_i outside
    refine congrArg _ (List.filter_congr fun entry _ => ?_)
    cases here : entry.2.isAt path identifier with
    | false => rfl
    | true =>
        rw [located entry here]
        simp [outside]

/-- Whoever stays was numbered before. -/
theorem Agrees.of_sublist
    (agrees : client.Agrees) {next : Client} (sound : next.engine.Sound)
    (tended : next.engine.Tended)
    (sublist : next.queries.Sublist client.queries)
    (numbers : client.nextListener ≤ next.nextListener)
    (attached : ∀ path identifier,
      next.engine.sites.attached path identifier =
        next.heldAt path identifier) : next.Agrees where
  sound := sound
  tended := tended
  ascending := List.Pairwise.sublist sublist agrees.ascending
  numbered := fun entry member =>
    Nat.lt_of_lt_of_le (agrees.numbered entry (sublist.subset member))
      numbers
  attached := attached

private theorem Agrees.engine_after_ask
    (agrees : client.Agrees) (valid : request.Valid) :
    (client.ask request).2.Sound ∧ (client.ask request).2.Tended := by
  cases asked : client.asks? request with
  | none =>
      rw [ask_of_silence asked]
      exact ⟨agrees.sound, agrees.tended⟩
  | some call =>
      have callValid := valid_of_asks? valid asked
      rw [ask_of_asks? asked]
      exact ⟨agrees.sound.perform callValid,
        (Engine.passing_perform agrees.tended agrees.sound
          callValid).tended⟩

private theorem Course.agrees
    {response : Response} (course : client.Course request response)
    (agrees : client.Agrees) (valid : request.Valid) :
    response.client.Agrees := by
  obtain ⟨sound, tended⟩ := agrees.engine_after_ask valid
  rw [← course.engine_eq] at sound tended
  cases course with
  | @apart next _ engine queries numbers =>
      refine agrees.of_sublist sound tended (queries ▸ .refl _) numbers
        fun path identifier => ?_
      rw [engine, heldAt, queries]
      exact agrees.attached path identifier
  | @served call next asked operates engine listeners numbers =>
      have untouched := Engine.untouched_perform agrees.tended agrees.sound
        (valid_of_asks? valid asked) operates
      have queries : next.queries = client.queries :=
        congrArg (List.map _) listeners
      refine agrees.of_sublist sound tended (queries ▸ .refl _)
        (Nat.le_of_eq numbers.symm) fun path identifier => ?_
      rw [engine, heldAt, queries, untouched.attached]
      exact agrees.attached path identifier
  | @joined query kinds next isRequest sensible engine listeners numbers =>
      subst isRequest
      have queries := agrees.queries_joined listeners
      refine ⟨sound, tended, ?_, ?_, fun path identifier => ?_⟩
      · rw [queries]
        refine List.pairwise_append.mpr
          ⟨agrees.ascending, List.pairwise_singleton _ _, ?_⟩
        intro entry member other isNew
        rw [List.mem_singleton.mp isNew]
        exact Nat.compare_eq_lt.mpr (agrees.numbered entry member)
      · intro entry member
        rw [queries] at member
        rw [numbers]
        rcases List.mem_append.mp member with old | isNew
        · exact Nat.lt_succ_of_lt (agrees.numbered entry old)
        · rw [List.mem_singleton.mp isNew]
          exact Nat.lt_succ_self _
      · rw [engine, ask_of_asks? rfl, Engine.attached_register _ sensible,
          agrees.attached, heldAt_joined queries]
  | @left listener entry next _ found engine listeners numbers =>
      rw [Sorted.erase_eq_filter listener agrees.ascending_listeners]
        at listeners
      have queries := queries_left listeners
      have isQuery :
          Sorted.find? listener client.queries = some entry.query := by
        rw [find?_queries, found]
        rfl
      refine agrees.of_sublist sound tended
        (queries ▸ List.filter_sublist) (Nat.le_of_eq numbers.symm)
        fun path identifier => ?_
      rw [engine, Engine.attached_unregister agrees.tended,
        agrees.attached, agrees.heldAt_left isQuery queries]
  | @revoked source code path told next _ _ engine ended numbers =>
      have queries : next.queries = client.queries.filter fun entry =>
          !Path.contains path entry.2.path := by
        rw [Client.queries, agrees.listeners_revoked ended, Client.queries,
          List.filter_map]
        rfl
      refine agrees.of_sublist sound tended
        (queries ▸ List.filter_sublist) (Nat.le_of_eq numbers.symm)
        fun other identifier => ?_
      rw [engine, Engine.attached_revoke agrees.tended, agrees.attached,
        heldAt_revoked queries]

private theorem Agrees.after
    (agrees : client.Agrees) {requests : List Request}
    (valid : ∀ request ∈ requests, request.Valid) :
    (client.after requests).Agrees := by
  induction requests generalizing client with
  | nil => exact agrees
  | cons request rest inductionHypothesis =>
      obtain ⟨first, others⟩ := List.forall_mem_cons.mp valid
      exact inductionHypothesis
        ((client.course_handle request).agrees agrees first) others

/-! ## Delivery -/

/-- Every event of an operation is for a listener that the client holds. -/
theorem Agrees.addressed
    (agrees : client.Agrees) {call : Call} (valid : call.Valid)
    {event : Event} (member : event ∈ (client.engine.perform call).1) :
    Sorted.contains event.listener client.listeners = true ∨
      call.Registers event.listener := by
  have course := Engine.course_perform agrees.sound valid
  exact (course.addressed agrees.sound member).imp_left
    agrees.attached_iff.mp

private theorem deliverable_eq
    {events : List Event}
    (held : ∀ event ∈ events,
      Sorted.contains event.listener client.listeners = true) :
    client.deliverable events = events :=
  List.filter_eq_self.mpr held

/-- Every event of the engine belongs to a listener that the client holds, and is handed to it. -/
theorem Course.delivers
    {response : Response} (course : client.Course request response)
    (agrees : client.Agrees) (valid : request.Valid) :
    response.delivered = (client.ask request).1 ∧
      ∀ event ∈ (client.ask request).1,
        Sorted.contains event.listener response.client.listeners =
          true := by
  cases course with
  | apart asked _ _ _ =>
      rw [asked]
      exact ⟨rfl, fun _ member => absurd member List.not_mem_nil⟩
  | @served call next asked operates _ listeners _ =>
      have held : ∀ event ∈ (client.engine.perform call).1,
          Sorted.contains event.listener client.listeners = true := by
        intro event member
        refine (agrees.addressed (valid_of_asks? valid asked)
          member).resolve_right ?_
        cases call with
        | register _ _ => cases operates
        | _ => exact id
      rw [ask_of_asks? asked, listeners]
      exact ⟨deliverable_eq held, held⟩
  | @joined query kinds next isRequest _ _ listeners _ =>
      subst isRequest
      have held : ∀ event ∈ (client.ask (.subscribe query kinds)).1,
          Sorted.contains event.listener next.listeners = true := by
        intro event member
        rw [listeners, Sorted.contains]
        by_cases isNew : event.listener = client.nextListener
        · rw [isNew, Sorted.find?_insert_self]
          rfl
        · rw [Sorted.find?_insert_of_ne _ isNew]
          rw [ask_of_asks? rfl] at member
          have addressed := agrees.addressed (valid_of_asks? valid rfl) member
          exact addressed.resolve_right fun registers =>
            isNew registers.symm
      exact ⟨deliverable_eq held, held⟩
  | left isRequest found _ _ _ =>
      subst isRequest
      rw [ask, asks?, found]
      exact ⟨rfl, fun _ member => absurd member List.not_mem_nil⟩
  | revoked isRequest read _ _ _ =>
      subst isRequest
      rw [ask, asks?, read]
      exact ⟨rfl, fun _ member => absurd member List.not_mem_nil⟩

/-- Nobody is held but who was held before, and whoever came with the next number. -/
theorem Course.held
    {response : Response} (course : client.Course request response)
    (agrees : client.Agrees)
    (held : Sorted.contains listener response.client.listeners = true) :
    Sorted.contains listener client.listeners = true ∨
      listener = client.nextListener := by
  cases course with
  | apart _ _ queries _ =>
      rw [contains_iff, queries] at held
      exact Or.inl (contains_iff.mpr held)
  | served _ _ _ listeners _ =>
      rw [listeners] at held
      exact Or.inl held
  | joined _ _ _ listeners _ =>
      rw [listeners, Sorted.contains] at held
      by_cases isNew : listener = client.nextListener
      · exact Or.inr isNew
      · rw [Sorted.find?_insert_of_ne _ isNew] at held
        exact Or.inl held
  | @left leaver entry next _ _ _ listeners _ =>
      rw [listeners, Sorted.contains] at held
      by_cases same : listener = leaver
      · rw [same, Sorted.find?_erase_self agrees.ascending_listeners]
          at held
        cases held
      · rw [Sorted.find?_erase_of_ne same agrees.ascending_listeners]
          at held
        exact Or.inl held
  | revoked _ _ _ ended _ =>
      rw [agrees.listeners_revoked ended, Sorted.contains,
        Sorted.find?_filter _ agrees.ascending_listeners] at held
      refine Or.inl ?_
      rw [Sorted.contains]
      cases found : Sorted.find? listener client.listeners with
      | some entry => rfl
      | none =>
          rw [found] at held
          cases held

private theorem Course.numbers
    {response : Response} (course : client.Course request response) :
    client.nextListener ≤ response.client.nextListener := by
  cases course with
  | apart _ _ _ numbers => exact numbers
  | served _ _ _ _ numbers => exact Nat.le_of_eq numbers.symm
  | joined _ _ _ _ numbers => exact numbers ▸ Nat.le_succ _
  | left _ _ _ _ numbers => exact Nat.le_of_eq numbers.symm
  | revoked _ _ _ _ numbers => exact Nat.le_of_eq numbers.symm

/-- Whatever happens from now on, a listener is not held and hears nothing. -/
def Forgets (client : Client) (listener : ListenerId) : Prop :=
  ∀ later : List Request, (∀ request ∈ later, request.Valid) →
    Sorted.contains listener (client.after later).listeners = false ∧
      ∀ event ∈ client.delivered later, event.listener ≠ listener

/-- A number that was given out and is not in use is never in use again. -/
theorem Agrees.forgets
    (agrees : client.Agrees) (given : listener < client.nextListener)
    (gone : Sorted.contains listener client.listeners = false) :
    client.Forgets listener := by
  intro later
  induction later generalizing client with
  | nil =>
      exact fun _ => ⟨gone, fun _ member => absurd member List.not_mem_nil⟩
  | cons request rest inductionHypothesis =>
      intro valid
      obtain ⟨first, others⟩ := List.forall_mem_cons.mp valid
      have course := client.course_handle request
      have stillGone : Sorted.contains listener
          (client.handle request).client.listeners = false := by
        refine Bool.eq_false_iff.mpr fun held => ?_
        rcases course.held agrees held with before | isNew
        · rw [gone] at before
          cases before
        · exact absurd isNew (Nat.ne_of_lt given)
      obtain ⟨after, silent⟩ := inductionHypothesis
        (course.agrees agrees first)
        (Nat.lt_of_lt_of_le given course.numbers) stillGone others
      refine ⟨after, fun event member => ?_⟩
      rcases List.mem_append.mp member with now | late
      · rintro rfl
        obtain ⟨delivered, held⟩ := course.delivers agrees first
        rw [delivered] at now
        rw [held event now] at stillGone
        cases stillGone
      · exact silent event late

/-! ## All requests -/

/-- A revocation ends the listeners at and below its location and no others, and tells each of them
once if it wants to be told. -/
structure Ends (client : Client) (path : Path) (error : ClientError)
    (response : Response) : Prop where
  told : ∃ ended : List ListenerId, ended.Nodup ∧
    (∀ listener, listener ∈ ended ↔
      ∃ entry, Sorted.find? listener client.listeners = some entry ∧
        Path.contains path entry.query.path = true) ∧
    response.cancelled = ended.filterMap (fun listener =>
      (client.label? listener).map fun label => ⟨label, error⟩) ∧
    ∀ listener ∈ ended, response.client.Forgets listener
  others : response.client.listeners = client.listeners.filter fun entry =>
    !Path.contains path entry.2.query.path

/-- The listeners of the client are those of the engine, each in the view of its query and nowhere
else. Every event is for one of them and handed to it, in order. Who leaves or is ended hears
nothing more, and a revocation ends whom it concerns. -/
structure Orderly (client : Client) : Prop where
  held : ∀ listener,
    Sorted.contains listener client.listeners = true ↔
      ∃ path identifier view,
        client.engine.sites.lookup? path identifier = some view ∧
          view.HeardBy listener
  placed : ∀ listener entry,
    Sorted.find? listener client.listeners = some entry →
      (∃ view,
        client.engine.sites.lookup? entry.query.path
            entry.query.identifier = some view ∧
          (view.registrations.map (·.id)).count listener = 1) ∧
      ∀ path identifier view,
        client.engine.sites.lookup? path identifier = some view →
        view.HeardBy listener →
          path = entry.query.path ∧ identifier = entry.query.identifier
  delivers : ∀ request, request.Valid →
    (client.handle request).delivered = (client.ask request).1 ∧
      ∀ event ∈ (client.ask request).1,
        Sorted.contains event.listener
          (client.handle request).client.listeners = true
  leaves : ∀ listener entry,
    Sorted.find? listener client.listeners = some entry →
      let next := (client.handle (.unsubscribe listener)).client
      next.listeners = client.listeners.filter (·.1 != listener) ∧
        next.Forgets listener
  ends : ∀ source code path, Path.parse source = .ok path →
    client.Ends path (.revoked code source)
      (client.handle (.server (.listenRevoked source code)))
  spares : ∀ request,
    (∀ source code, request ≠ .server (.listenRevoked source code)) →
      (client.handle request).cancelled = []

private theorem handle_revocation
    (client : Client) {source : String} (code : RevocationCode)
    {path : Path} (read : Path.parse source = .ok path) :
    client.handle (.server (.listenRevoked source code)) =
      let ended := cancelAll (.revoked code source)
        (client.engine.endedAt path) client.listeners
      ⟨[], ended.1, { client with
        engine := (client.engine.revoke path).2
        listeners := ended.2 }⟩ := by
  change (client.revoke source code).response = _
  rw [revoke, read]
  rfl

private theorem handle_unsubscribe
    {entry : Listener}
    (found : Sorted.find? listener client.listeners = some entry) :
    client.handle (.unsubscribe listener) =
      ⟨[], [], { client with
        engine := (client.engine.unregister entry.query listener).2
        listeners := Sorted.erase listener client.listeners }⟩ := by
  change (client.unsubscribe listener).response = _
  rw [unsubscribe, found]
  rfl

private theorem Agrees.given
    (agrees : client.Agrees) {entry : Listener}
    (found : Sorted.find? listener client.listeners = some entry) :
    listener < client.nextListener :=
  agrees.numbered (listener, entry.query)
    (List.mem_map_of_mem (Sorted.mem_of_find?_eq_some found))

/-- A listener that a request takes away is forgotten from then on. -/
theorem Agrees.forgets_handle
    (agrees : client.Agrees) (valid : request.Valid) {entry : Listener}
    (found : Sorted.find? listener client.listeners = some entry)
    (gone : Sorted.find? listener
      (client.handle request).client.listeners = none) :
    (client.handle request).client.Forgets listener := by
  have course := client.course_handle request
  refine (course.agrees agrees valid).forgets
    (Nat.lt_of_lt_of_le (agrees.given found) course.numbers) ?_
  rw [Sorted.contains, gone]
  rfl

private theorem Agrees.ends
    (agrees : client.Agrees) {source : String} (code : RevocationCode)
    {path : Path} (read : Path.parse source = .ok path) :
    client.Ends path (.revoked code source)
      (client.handle (.server (.listenRevoked source code))) := by
  have parts := cancelAll_eq (.revoked code source)
    (agrees.nodup_endedAt path) agrees.ascending_listeners
  have response := client.handle_revocation code read
  have others :
      (client.handle (.server (.listenRevoked source code))).client.listeners =
        client.listeners.filter fun entry =>
          !Path.contains path entry.2.query.path := by
    rw [response]
    exact agrees.listeners_revoked rfl
  have concerned (listener : ListenerId) :
      listener ∈ client.engine.endedAt path ↔
        ∃ entry, Sorted.find? listener client.listeners = some entry ∧
          Path.contains path entry.query.path = true := by
    rw [agrees.mem_endedAt, find?_queries]
    simp
  refine ⟨⟨client.engine.endedAt path, agrees.nodup_endedAt path,
    concerned, ?_, fun listener member => ?_⟩, others⟩
  · rw [response]
    exact congrArg Prod.fst parts
  · obtain ⟨entry, found, contained⟩ := (concerned listener).mp member
    refine agrees.forgets_handle trivial found ?_
    rw [others, Sorted.find?_filter _ agrees.ascending_listeners, found]
    simp [Option.filter, contained]

private theorem Agrees.leaves
    (agrees : client.Agrees) {entry : Listener}
    (found : Sorted.find? listener client.listeners = some entry) :
    let next := (client.handle (.unsubscribe listener)).client
    next.listeners = client.listeners.filter (·.1 != listener) ∧
      next.Forgets listener := by
  have erased : (client.handle (.unsubscribe listener)).client.listeners =
      Sorted.erase listener client.listeners := by
    rw [handle_unsubscribe found]
  refine ⟨?_, agrees.forgets_handle trivial found ?_⟩
  · rw [erased, Sorted.erase_eq_filter _ agrees.ascending_listeners]
  · rw [erased, Sorted.find?_erase_self agrees.ascending_listeners]

private theorem Agrees.orderly (agrees : client.Agrees) : client.Orderly where
  held := fun listener => by
    rw [← agrees.attached_iff]
    simp only [Sites.mem_attached]
  placed := fun listener entry found => by
    have isQuery :
        Sorted.find? listener client.queries = some entry.query := by
      rw [find?_queries, found]
      rfl
    refine ⟨?_, fun path identifier view isView heard => ?_⟩
    · have attached := agrees.mem_attached.mpr
        ⟨entry.query, isQuery, rfl, rfl⟩
      have once := List.count_eq_one_of_mem
        (agrees.nodup_attached _ _) attached
      obtain ⟨view, isView, _⟩ := Sites.mem_attached.mp attached
      rw [Sites.attached_of_lookup? isView] at once
      exact ⟨view, isView, once⟩
    · obtain ⟨query, same, here⟩ := agrees.mem_attached.mp
        (Sites.mem_attached.mpr ⟨view, isView, heard⟩)
      cases isQuery.symm.trans same
      exact here
  delivers := fun request valid =>
    (client.course_handle request).delivers agrees valid
  leaves := fun _ _ found => agrees.leaves found
  ends := fun _ code _ read => agrees.ends code read
  spares := fun request others => by
    have course := client.course_handle request
    generalize client.handle request = response at course ⊢
    cases course with
    | apart _ _ _ _ => rfl
    | served _ _ _ _ _ => rfl
    | joined _ _ _ _ _ => rfl
    | left _ _ _ _ _ => rfl
    | revoked isRequest _ _ _ _ => exact absurd isRequest (others _ _)

/-- After every run of requests the listeners of the client are in order. -/
theorem listeners_agree
    (config : ClientConfig) {requests : List Request}
    (valid : ∀ request ∈ requests, request.Valid) :
    ((create config).after requests).Orderly :=
  ((agrees_create config).after valid).orderly

/-- Two queries with two listeners each, one of which leaves, and the data of the first query. -/
def fourListeners : List Request :=
  [.subscribe { path := [⟨"v"⟩] } ChangeKind.all,
    .subscribe { path := [⟨"v"⟩, ⟨"a"⟩] } ChangeKind.all,
    .subscribe { path := [⟨"v"⟩, ⟨"a"⟩] } ChangeKind.all,
    .subscribe { path := [⟨"v"⟩] } ChangeKind.all,
    .onCancel 3 "ended", .unsubscribe 1,
    .user (.overwrite 1 "/v/a" (.bool true))]

theorem listeners_agree_after_revocation :
    let client := (create ⟨{ session := "" }, true⟩).after fourListeners
    let revocation : Request :=
      .server (.listenRevoked "/v/a" .permissionDenied)
    client.Orderly ∧
      (client.handle revocation).client.Orderly ∧
      client.listeners.map (·.1) = [2, 3, 4] ∧
      (client.handle revocation).client.listeners.map (·.1) = [4] ∧
      (client.handle revocation).cancelled.map (·.label) = ["ended"] := by
  have valid : ∀ request ∈ fourListeners, request.Valid := by
    simp [fourListeners, Request.Valid]
  have validRevoked : ∀ request ∈ fourListeners ++
      [.server (.listenRevoked "/v/a" .permissionDenied)],
      request.Valid := by
    simp [fourListeners, Request.Valid]
  refine ⟨listeners_agree _ valid, ?_, ?_, ?_, ?_⟩
  · exact listeners_agree ⟨{ session := "" }, true⟩ validRevoked
  · decide +kernel
  · decide +kernel
  · decide +kernel

end Client

end Replica
