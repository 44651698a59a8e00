import Replica.Proofs.Engine.Attendance

/-!
# Balanced counters

A local write that was counted is answered or still pending, a view that was counted has ended or
is still there, and the events that were counted are those that the calls returned. Nothing fails
between a count and the change that it counts, so this holds after every run.
-/

namespace Replica

namespace Site

/-- When a listener leaves a site, each of its views ends or stays. -/
theorem length_unregister
    (identifier? : Option String) (listener : ListenerId) (site : Site) :
    (unregister identifier? listener site).1.length +
        (unregister identifier? listener site).2.2.length =
      site.length := by
  induction site with
  | nil => rfl
  | cons entry rest inductionHypothesis =>
      obtain ⟨identifier, view⟩ := entry
      rw [unregister]
      generalize unregister identifier? listener rest = others
        at inductionHypothesis ⊢
      obtain ⟨ended, wasFound, others⟩ := others
      dsimp only at inductionHypothesis ⊢
      -- The view may lose a listener; all that counts is that it is still there.
      have stays (kept : View) :
          ended.length + ((identifier, kept) :: others).length =
            ((identifier, view) :: rest).length := by
        rw [List.length_cons, List.length_cons, ← inductionHypothesis]
        rfl
      split
      · split
        · split
          · rw [List.length_cons, List.length_cons, ← inductionHypothesis]
            exact Nat.succ_add _ _
          · exact stays _
        · exact stays _
      · exact stays view

end Site

namespace Sites

variable {sites : Sites}

def views (sites : Sites) : List View :=
  sites.flatMap fun entry => entry.2.map (·.2)

private theorem length_found (path : Path) (sites : Sites) :
    (((Sorted.find? path sites).map (·.map Prod.snd)).getD []).length =
      ((Sorted.find? path sites).getD []).length := by
  cases Sorted.find? path sites with
  | none => rfl
  | some site => exact List.length_map _

private theorem length_views_insert
    (path : Path) (site : Site) (sites : Sites) :
    (views (Sorted.insert path site sites)).length +
        ((Sorted.find? path sites).getD []).length =
      sites.views.length + site.length := by
  have total :=
    Sorted.length_flatMap_insert (·.map Prod.snd) path site sites
  rw [length_found, List.length_map] at total
  exact total

private theorem length_views_erase (path : Path) (sites : Sites) :
    (views (Sorted.erase path sites)).length +
        ((Sorted.find? path sites).getD []).length =
      sites.views.length := by
  rw [← length_found]
  exact Sorted.length_flatMap_erase (·.map Prod.snd) path sites

/-- A view that is put in place is one more, or takes the place of another one. -/
theorem length_views_place
    (sites : Sites) (path : Path) (identifier : String) (view : View) :
    (sites.place path identifier view).views.length =
      sites.views.length +
        if (sites.lookup? path identifier).isNone then 1 else 0 := by
  have total := length_views_insert path
    (Sorted.insert identifier view ((Sorted.find? path sites).getD []))
    sites
  rw [lookup?_eq_find?, place]
  generalize (Sorted.find? path sites).getD [] = site at total ⊢
  cases found : Sorted.find? identifier site with
  | none =>
      rw [Sorted.length_insert_of_absent view found] at total
      rw [Option.isNone_none, if_pos rfl]
      omega
  | some old =>
      have present : (Sorted.find? identifier site).isSome = true := by
        rw [found]
        rfl
      rw [Sorted.length_insert_of_present view present] at total
      rw [Option.isNone_some, if_neg Bool.false_ne_true]
      omega

/-- The views of some sites and those of the others are all views. -/
theorem length_views_partition
    (chosen : Path × Site → Bool) (sites : Sites) :
    (views (sites.filter chosen)).length +
        (views (sites.filter fun entry => !chosen entry)).length =
      sites.views.length := by
  have parted := (List.filter_append_perm chosen sites).flatMap_right
    fun entry => entry.2.map (·.2)
  rw [List.flatMap_append] at parted
  have total := parted.length_eq
  rw [List.length_append] at total
  exact total

private theorem length_flatMap_listeners (sites : Sites) :
    (sites.flatMap fun entry => entry.2.listeners).length =
      sites.views.length := by
  induction sites with
  | nil => rfl
  | cons entry rest inductionHypothesis =>
      rw [views] at inductionHypothesis ⊢
      rw [List.flatMap_cons, List.flatMap_cons, List.length_append,
        List.length_append, inductionHypothesis, Site.listeners,
        List.length_map, List.length_map]

/-- An operation leaves the number of views as it was. -/
theorem Delivered.length_views
    {pending : Pending} {operation : Operation} {next : Sites}
    {events : List Event}
    (delivered : Delivered pending operation sites next events)
    (sound : sites.Sound) :
    next.views.length = sites.views.length := by
  have related := Sorted.forall₂_of_find? _ sound.ascending
    delivered.sound.ascending delivered.stays
  rw [views, views]
  clear delivered sound
  induction related with
  | nil => rfl
  | cons head _ inductionHypothesis =>
      rw [List.flatMap_cons, List.flatMap_cons, List.length_append,
        List.length_append, inductionHypothesis, List.length_map,
        List.length_map, head.2.length_eq]

end Sites

namespace Engine

/-- Every local write that was counted was accepted, rejected or is pending, every view that was
counted was removed or is there, and as many events were counted as were returned. -/
structure Balanced (engine : Engine) (returned : Nat) : Prop where
  writes : engine.counters.userWrites =
    engine.counters.acks + engine.counters.reverts +
      engine.pending.writes.length
  views : engine.counters.viewsCreated =
    engine.counters.viewsRemoved + engine.sites.views.length
  events : engine.counters.eventsRaised = returned

private theorem Balanced.create (config : Config) :
    (create config).Balanced 0 :=
  ⟨rfl, rfl, rfl⟩

namespace Balanced

variable {engine : Engine} {returned : Nat}
  (balanced : engine.Balanced returned)

include balanced

/-! ## Counts of a call -/

private theorem fail (error : SyncError) :
    (engine.fail error).outcome.2.Balanced
      (returned + (engine.fail error).outcome.1.length) :=
  ⟨balanced.writes, balanced.views, balanced.events⟩

private theorem succeed (events : List Event) :
    (engine.succeed events).outcome.2.Balanced
      (returned + (engine.succeed events).outcome.1.length) :=
  ⟨balanced.writes, balanced.views,
    congrArg (· + events.length) balanced.events⟩

/-- A new write is counted once it is pending. -/
theorem add
    {write : Write} {pending : Pending}
    (added : engine.pending.add write = .ok pending) :
    ({ engine with
        counters := engine.counters.countUserWrite
        pending := pending } : Engine).Balanced returned := by
  refine ⟨?_, balanced.views, balanced.events⟩
  have writes := balanced.writes
  change engine.counters.userWrites + 1 =
    engine.counters.acks + engine.counters.reverts + pending.writes.length
  rw [(Pending.add_eq_ok added).1, List.length_append, writes]
  rfl

/-- The answer to a write is counted once the write is no longer pending. -/
theorem answer
    {id : WriteId} {write : Write} {pending : Pending}
    (removed : engine.pending.remove id = .ok (write, pending))
    (rejected : Bool) :
    ({ engine with
        counters := engine.counters.countAnswer rejected
        pending := pending } : Engine).Balanced returned := by
  obtain ⟨before, after, queue, others, _⟩ :=
    Pending.remove_eq_ok removed
  have oneLess : engine.pending.writes.length =
      pending.writes.length + 1 := by
    rw [queue, others, List.length_append, List.length_append,
      List.length_cons]
    rfl
  have writes := balanced.writes
  rw [oneLess] at writes
  cases rejected with
  | true =>
      refine ⟨?_, balanced.views, balanced.events⟩
      change engine.counters.userWrites =
        engine.counters.acks + (engine.counters.reverts + 1) +
          pending.writes.length
      omega
  | false =>
      refine ⟨?_, balanced.views, balanced.events⟩
      change engine.counters.userWrites =
        engine.counters.acks + 1 + engine.counters.reverts +
          pending.writes.length
      omega

/-- A view is counted as removed with its site, or with its last listener. -/
theorem release
    {path : Path} {old site : Site} {ended : List Query}
    (found : Sorted.find? path engine.sites = some old)
    (parted : ended.length + site.length = old.length) :
    (engine.release path site ended).Balanced returned := by
  refine ⟨balanced.writes, ?_, balanced.events⟩
  have views := balanced.views
  have left : (engine.release path site ended).sites.views.length +
      ended.length = engine.sites.views.length := by
    unfold Engine.release
    dsimp only
    split
    · rename_i empty
      have erased := Sites.length_views_erase path engine.sites
      rw [found, Option.getD_some, ← parted, List.isEmpty_iff.mp empty]
        at erased
      exact erased
    · have inserted := Sites.length_views_insert path site engine.sites
      rw [found, Option.getD_some] at inserted
      omega
  change engine.counters.viewsCreated =
    engine.counters.viewsRemoved + ended.length +
      (engine.release path site ended).sites.views.length
  omega

private theorem detach
    (path : Path) (identifier? : Option String) (listener : ListenerId) :
    (engine.detach path identifier? listener).2.Balanced returned := by
  unfold Engine.detach
  cases found : Sorted.find? path engine.sites with
  | none => exact balanced
  | some site =>
      exact balanced.release found
        (Site.length_unregister identifier? listener site)

private theorem removeListener (listener : ListenerId) :
    (engine.removeListener listener).2.Balanced returned := by
  refine List.foldlRecOn
    (motive := fun reached : Bool × Engine => reached.2.Balanced returned)
    _ _ balanced ?_
  intro reached stillBalanced path _
  exact stillBalanced.detach path none listener

private theorem revoke (path : Path) :
    (engine.revoke path).2.Balanced returned := by
  refine ⟨balanced.writes, ?_, balanced.events⟩
  have views := balanced.views
  have parted : (engine.revoke path).1.length +
      (engine.revoke path).2.sites.views.length =
        engine.sites.views.length := by
    rw [Engine.revoke, List.partition_eq_filter_filter]
    dsimp only
    rw [Sites.length_flatMap_listeners]
    exact Sites.length_views_partition _ engine.sites
  change engine.counters.viewsCreated =
    engine.counters.viewsRemoved + (engine.revoke path).1.length +
      (engine.revoke path).2.sites.views.length
  omega

private theorem register (query : Query) (registration : Registration) :
    (engine.register query registration).outcome.2.Balanced
      (returned +
        (engine.register query registration).outcome.1.length) := by
  unfold Engine.register
  cases query.selection.validate with
  | error failure => exact balanced
  | ok _ =>
      dsimp only [Site.register]
      rw [← Sites.lookup?_eq_find?]
      let view := ((engine.sites.lookup? query.path query.identifier).getD
        (.create query (engine.sites.serverCache query.path)
          (engine.pending.at query.path))).joinedBy registration
      have views := balanced.views
      have placed := engine.sites.length_views_place query.path
        query.identifier view
      split
      · rename_i created
        rw [if_pos created] at placed
        apply succeed
        refine ⟨balanced.writes, ?_, balanced.events⟩
        change engine.counters.viewsCreated + 1 =
          engine.counters.viewsRemoved +
            (engine.sites.place query.path query.identifier
              view).views.length
        omega
      · rename_i existed
        rw [if_neg existed] at placed
        apply succeed
        refine ⟨balanced.writes, ?_, balanced.events⟩
        exact views.trans (congrArg (_ + ·) placed.symm)

end Balanced

variable {engine : Engine} {returned : Nat}

/-- Routing never fails, so what was counted before it stays counted. -/
theorem Balanced.run
    {counters : Counters} {pending : Pending}
    (balanced : ({ engine with
      counters := counters
      pending := pending } : Engine).Balanced returned)
    (sound : engine.sites.Sound) (pendingSound : pending.Sound)
    {operation : Operation} (valid : operation.Valid) :
    let reply :=
      ({ engine with counters := counters } : Engine).run operation pending
    reply.outcome.2.Balanced (returned + reply.outcome.1.length) := by
  obtain ⟨events, next, routed, delivered⟩ :=
    Sites.route_ok pendingSound valid sound
  have replied :
      ({ engine with counters := counters } : Engine).run operation pending =
        ({ engine with
          sites := next
          counters := counters
          pending := pending } : Engine).succeed events := by
    rw [Engine.run, routed]
  have views := balanced.views
  rw [← delivered.length_views sound] at views
  have delivers : ({ engine with
      sites := next
      counters := counters
      pending := pending } : Engine).Balanced returned :=
    ⟨balanced.writes, views, balanced.events⟩
  dsimp only
  rw [replied]
  exact delivers.succeed events

/-- Every call keeps the balance, also one that fails. -/
theorem Balanced.perform
    (balanced : engine.Balanced returned) (sound : engine.Sound)
    {call : Call} (valid : call.Valid) :
    (engine.perform call).2.Balanced
      (returned + (engine.perform call).1.length) := by
  have server {operation : Operation} (operationValid : operation.Valid) :
      (engine.serverOperation operation).outcome.2.Balanced
        (returned +
          (engine.serverOperation operation).outcome.1.length) := by
    have counted : ({ engine with
        counters := engine.counters.countServerOperation } :
          Engine).Balanced returned :=
      ⟨balanced.writes, balanced.views, balanced.events⟩
    exact counted.run sound.sites sound.pending operationValid
  cases call with
  | userOverwrite path node id visible =>
      have operationValid : (Operation.overwrite .user path node).Valid :=
        valid
      rw [Engine.perform, userOverwrite]
      cases added : engine.pending.addOverwrite id path node visible with
      | error failure => exact balanced.fail failure
      | ok pending =>
          have counted := balanced.add added
          have writeValid :
              (Write.mk id path (.overwrite node) visible).overlay.Valid :=
            Overlay.Valid.ofNode valid
          have pendingSound := sound.pending.add writeValid added
          cases visible with
          | true =>
              exact counted.run sound.sites pendingSound operationValid
          | false => exact counted.succeed []
  | userMerge path nodes id =>
      have operationValid : (Operation.merge .user path nodes).Valid :=
        valid
      rw [Engine.perform, userMerge]
      cases added : engine.pending.addMerge id path nodes with
      | error failure => exact balanced.fail failure
      | ok pending =>
          have counted := balanced.add added
          have writeValid : (Write.mk id path (.merge nodes) true).overlay.Valid :=
            valid
          exact counted.run sound.sites (sound.pending.add writeValid added)
            operationValid
  | acknowledge id rejected =>
      rw [Engine.perform, acknowledge]
      cases removed : engine.pending.remove id with
      | error failure => exact balanced.fail failure
      | ok answer =>
          obtain ⟨write, pending⟩ := answer
          have counted := balanced.answer removed rejected
          have operationValid : (Operation.acknowledge write.path rejected
              write.overlay).Valid :=
            sound.pending.valid_of_remove removed
          dsimp only
          split
          · exact counted.succeed []
          · exact counted.run sound.sites
              (sound.pending.remove removed) operationValid
  | serverOverwrite path node =>
      have operationValid : (Operation.overwrite .server path node).Valid :=
        valid
      exact server operationValid
  | serverMerge path nodes =>
      have operationValid : (Operation.merge .server path nodes).Valid :=
        valid
      exact server operationValid
  | listenComplete path =>
      have operationValid : (Operation.listenComplete path).Valid := trivial
      exact server operationValid
  | register query registration =>
      exact balanced.register query registration
  | unregister query listener =>
      exact balanced.detach query.path (some query.identifier) listener
  | removeListener listener => exact balanced.removeListener listener
  | revoke path => exact balanced.revoke path

/-- A run keeps the balance with the events that it raises. -/
theorem Balanced.after
    (balanced : engine.Balanced returned) (sound : engine.Sound)
    {calls : List Call} (valid : ∀ call ∈ calls, call.Valid) :
    (engine.after calls).Balanced
      (returned + (engine.raised calls).length) := by
  induction calls generalizing engine returned with
  | nil => exact balanced
  | cons call rest inductionHypothesis =>
      obtain ⟨first, others⟩ := List.forall_mem_cons.mp valid
      rw [raised, List.length_append, ← Nat.add_assoc]
      exact inductionHypothesis (balanced.perform sound first)
        (sound.perform first) others

/-- In every state that a run reaches, whatever calls of it failed, the local writes that were
counted are those accepted, those rejected and those pending, the views that were created are
those removed and those there, and the events that were counted are those that the calls
returned. -/
theorem counters_balanced
    (config : Config) {calls : List Call}
    (valid : ∀ call ∈ calls, call.Valid) :
    ((create config).after calls).Balanced
      ((create config).raised calls).length := by
  have balanced :=
    (Balanced.create config).after (Sound.create config) valid
  rwa [Nat.zero_add] at balanced

/-- Room for two writes, of which one is hidden: two more are refused, both are answered, an
answer to a write that is not there fails, and all views are revoked while a write is pending. -/
def refusedAndRevoked : List Call :=
  [.register { path := [] } (.all 1), .register { path := [] } (.all 2),
    .serverOverwrite [] (.ofScalar (.bool false)),
    .userOverwrite [⟨"a"⟩] (.ofScalar (.bool true)) 1 true,
    .userOverwrite [⟨"b"⟩] (.ofScalar (.bool true)) 2 false,
    .userMerge [] .empty 2,
    .userOverwrite [⟨"c"⟩] (.ofScalar (.bool true)) 3 true,
    .acknowledge 9 true, .acknowledge 1 false, .acknowledge 2 true,
    .register { path := [⟨"a"⟩] } (.all 1),
    .userOverwrite [⟨"a"⟩] .empty 4 false, .removeListener 2,
    .revoke []]

theorem counters_balanced_refused_and_revoked :
    ((create { session := "", maxPending := 2 }).after
        refusedAndRevoked).Balanced
      ((create { session := "", maxPending := 2 }).raised
        refusedAndRevoked).length ∧
      ((create { session := "", maxPending := 2 }).after
          refusedAndRevoked).counters =
        { serverOperations := 1, userWrites := 3, acks := 1, reverts := 1,
          eventsRaised := 7, viewsCreated := 2, viewsRemoved := 2,
          errors := 3 } := by
  have valid : ∀ call ∈ refusedAndRevoked, call.Valid := by
    simp [refusedAndRevoked, Call.Valid, Node.Canonical.ofScalar,
      Node.Canonical.empty, Overlay.Valid.empty]
  refine ⟨counters_balanced _ valid, ?_⟩
  decide +kernel

end Engine

end Replica
