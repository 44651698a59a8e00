import Replica.Proofs.Engine.Completion
import Replica.Proofs.Engine.Departure

/-!
# Views and their listeners

The first listener creates a view, and with the last one it ends. What a call does to the view at a
location under an identifier, and what is said about it to the connection, is one of a few things,
and the connection is told of every beginning and every end but those by revocation.
-/

namespace Replica

def Call.revokes (path : Path) : Call → Bool
  | .revoke above => Path.contains above path
  | _ => false

/-! ## Calls that leave listeners alone -/

/-- The view is the same one with the same listeners. -/
structure View.Stays (old view : View) : Prop where
  query : view.query = old.query
  registrations : view.registrations = old.registrations
  tornDown : view.tornDown = old.tornDown

theorem View.Stays.refl (view : View) : view.Stays view :=
  ⟨rfl, rfl, rfl⟩

private theorem View.Stays.attended
    {old view : View} (stays : old.Stays view) (attended : old.Attended) :
    view.Attended :=
  ⟨stays.registrations ▸ attended.listened,
    stays.tornDown.trans attended.lasting⟩

/-- Every view takes an operation with the listeners that it has. -/
theorem Sites.Delivered.stays
    {pending : Pending} {operation : Operation} {sites next : Sites}
    {events : List Event}
    (delivered : Delivered pending operation sites next events)
    (path : Path) :
    Option.Rel (List.Forall₂ fun a b => a.1 = b.1 ∧ View.Stays a.2 b.2)
      (Sorted.find? path sites) (Sorted.find? path next) := by
  have same (site : Site) :
      List.Forall₂ (fun a b => a.1 = b.1 ∧ View.Stays a.2 b.2) site site :=
    List.forall₂_same.mpr fun entry _ => ⟨rfl, .refl entry.2⟩
  cases siteFound : Sorted.find? path sites with
  | none =>
      rw [(delivered.missed path (Or.inr siteFound)).1, siteFound]
      exact .none
  | some site =>
      cases reaches : reaching? operation path with
      | none =>
          rw [(delivered.missed path (Or.inl reaches)).1, siteFound]
          exact .some (same site)
      | some relative =>
          obtain ⟨_, _, stored, _⟩ :=
            delivered.reached path relative site reaches siteFound
          rw [stored]
          exact .some (List.forall₂_map_right_iff.mpr
            (List.forall₂_same.mpr fun entry _ =>
              ⟨rfl, rfl, rfl, rfl⟩))

namespace Engine

variable {engine : Engine} {path : Path} {identifier : String}

/-- No listener comes or goes, and the connection hears of nothing. -/
structure Untouched (engine next : Engine) : Prop where
  sound : next.sites.Sound
  inhabited : ∀ entry ∈ next.sites, entry.2 ≠ []
  views : ∀ path identifier, Option.Rel View.Stays
    (engine.sites.lookup? path identifier)
    (next.sites.lookup? path identifier)
  signals : next.signals = engine.signals

private theorem Tended.untouched_of_sites
    (tended : engine.Tended) {next : Engine}
    (sites : next.sites = engine.sites)
    (signals : next.signals = engine.signals) :
    engine.Untouched next := by
  refine ⟨sites ▸ tended.sound, sites ▸ tended.inhabited,
    fun path identifier => ?_, signals⟩
  rw [sites]
  cases engine.sites.lookup? path identifier with
  | none => exact .none
  | some view => exact .some (.refl view)

private theorem Tended.untouched_run
    (tended : engine.Tended) (counters : Counters)
    {operation : Operation} (valid : operation.Valid)
    {pending : Pending} (sound : pending.Sound) :
    engine.Untouched
      (({ engine with counters := counters } : Engine).run operation
        pending).outcome.2 := by
  obtain ⟨events, next, routed, delivered⟩ :=
    Sites.route_ok sound valid tended.sound
  have isNext : (({ engine with counters := counters } : Engine).run
      operation pending).outcome.2.sites = next := by
    rw [Reply.engine_outcome, run, routed]
    rfl
  have signals : (({ engine with counters := counters } : Engine).run
      operation pending).outcome.2.signals = engine.signals := by
    rw [Reply.engine_outcome, run, routed]
    rfl
  refine ⟨isNext ▸ delivered.sound, ?_, fun path identifier => ?_, signals⟩
  · rw [isNext]
    rintro ⟨path, site⟩ member rfl
    have stays := delivered.stays path
    rw [Sorted.find?_of_mem delivered.sound.ascending member] at stays
    generalize siteFound : Sorted.find? path engine.sites = old? at stays
    cases stays with
    | some related =>
        cases related
        exact tended.inhabited _ (Sorted.mem_of_find?_eq_some siteFound) rfl
  · rw [isNext, Sites.lookup?, Sites.lookup?]
    have stays := delivered.stays path
    generalize Sorted.find? path engine.sites = old? at stays ⊢
    generalize Sorted.find? path next = new? at stays ⊢
    cases stays with
    | none => exact .none
    | some related => exact Sorted.find?_rel_of_forall₂ identifier related

/-! ## What a call does to a view -/

/-- What a call can do to the view in a place, and what it says about it to the connection: nothing
where no view is, nothing of a view that stays, a start for a new view, a stop for one whose last
listener leaves, and nothing of one that is revoked. -/
inductive Passes (call : Call) (path : Path) (identifier : String) :
    Option View → Option View → List Signal → Prop where
  | absent : Passes call path identifier none none []
  | created {registration : Registration} {view : View}
      (isCall : call = .register view.query registration)
      (listeners : view.registrations = [registration]) :
      Passes call path identifier none (some view) [.start view.query]
  | stays {old view : View} (query : view.query = old.query)
      (notLast : ∀ listener, call.leaver? path identifier = some listener →
        ∃ registration ∈ old.registrations, registration.id ≠ listener)
      (spared : call.revokes path = false) :
      Passes call path identifier (some old) (some view) []
  | left {old : View} {listener : ListenerId}
      (leaves : call.leaver? path identifier = some listener)
      (last : ∀ registration ∈ old.registrations,
        registration.id = listener) :
      Passes call path identifier (some old) none [.stop old.query]
  | revoked {old : View} (revokes : call.revokes path = true) :
      Passes call path identifier (some old) none []

private theorem Passes.unattended
    {call : Call} {old view : View} (query : view.query = old.query)
    (nobody : call.leaver? path identifier = none)
    (spared : call.revokes path = false) :
    Passes call path identifier (some old) (some view) [] := by
  refine .stays query (fun listener leaves => ?_) spared
  rw [nobody] at leaves
  cases leaves

/-- A call leaves every site with views and every view with listeners, and passes every place in one
of the ways. -/
structure Passing (engine : Engine) (call : Call) (next : Engine) :
    Prop where
  tended : next.Tended
  signals : ∃ said, next.signals = engine.signals ++ said ∧
    ∀ path identifier, Passes call path identifier
      (engine.sites.lookup? path identifier)
      (next.sites.lookup? path identifier)
      (Signal.about path identifier said)

private theorem Untouched.passing
    {next : Engine} (untouched : engine.Untouched next)
    (tended : engine.Tended) {call : Call}
    (nobody : ∀ path identifier, call.leaver? path identifier = none)
    (spared : ∀ path, call.revokes path = false) :
    engine.Passing call next := by
  have origin {path : Path} {identifier : String} {view : View}
      (found : next.sites.lookup? path identifier = some view) :
      ∃ old, engine.sites.lookup? path identifier = some old ∧
        old.Stays view := by
    have related := untouched.views path identifier
    rw [found] at related
    generalize engine.sites.lookup? path identifier = old? at related ⊢
    cases related with
    | some stays => exact ⟨_, rfl, stays⟩
  refine ⟨⟨untouched.sound, fun path identifier view found => ?_,
    untouched.inhabited, fun path identifier view found => ?_⟩,
    [], ?_, fun path identifier => ?_⟩
  · obtain ⟨old, oldFound, stays⟩ := origin found
    rw [stays.query]
    exact tended.named path identifier old oldFound
  · obtain ⟨old, oldFound, stays⟩ := origin found
    exact stays.attended (tended.attended path identifier old oldFound)
  · rw [untouched.signals, List.append_nil]
  · have related := untouched.views path identifier
    generalize engine.sites.lookup? path identifier = old? at related ⊢
    generalize next.sites.lookup? path identifier = new? at related ⊢
    cases related with
    | none => exact .absent
    | some stays =>
        exact .unattended stays.query (nobody path identifier) (spared path)

private theorem Departs.passing
    {call : Call} {next : Engine}
    (departs : engine.Departs
      (fun path identifier =>
        View.leftBy? (call.leaver? path identifier)) next)
    (tended : engine.Tended) (spared : ∀ path, call.revokes path = false) :
    engine.Passing call next := by
  obtain ⟨said, signals, about⟩ := departs.signals
  refine ⟨departs.tended tended fun _ _ _ _ attended => attended.leftBy?,
    said, signals, fun path identifier => ?_⟩
  rw [about, departs.views]
  cases found : engine.sites.lookup? path identifier with
  | none => exact .absent
  | some view =>
      rw [Option.bind_some, Signal.ofLeaving]
      have attended := tended.attended path identifier view found
      cases left : view.leftBy? (call.leaver? path identifier) with
      | none =>
          cases leaves : call.leaver? path identifier with
          | none =>
              rw [leaves] at left
              cases left
          | some listener =>
              rw [leaves] at left
              exact .left leaves (View.without?_eq_none_iff.mp left)
      | some rest =>
          refine .stays (attended.leftBy? left).2 (fun listener leaves => ?_)
            (spared path)
          rw [leaves] at left
          by_contra last
          have nobody : view.without? listener = none :=
            View.without?_eq_none_iff.mpr (by simpa using last)
          rw [View.leftBy?, nobody] at left
          cases left

private theorem inhabited_place
    (inhabited : ∀ entry ∈ engine.sites, entry.2 ≠ [])
    (base : Path) (name : String) (view : View) :
    ∀ entry ∈ engine.sites.place base name view, entry.2 ≠ [] := by
  intro entry member
  rcases Sorted.mem_of_mem_insert member with rfl | old
  · exact List.ne_nil_of_mem (Sorted.mem_of_find?_eq_some
      (Sorted.find?_insert_self name view _))
  · exact inhabited entry old

/-- A query that makes sense gets a view if there is none, and the view one more listener. -/
theorem register_ok
    (engine : Engine) {query : Query}
    (sensible : query.selection.validate = .ok ())
    (registration : Registration) :
    let found? := engine.sites.lookup? query.path query.identifier
    let view := found?.getD (.create query
      (engine.sites.serverCache query.path) (engine.pending.at query.path))
    let next := (engine.register query registration).outcome.2
    next.sites = engine.sites.place query.path query.identifier
        (view.joinedBy registration) ∧
      next.signals = engine.signals ++
        if found?.isNone then [.start query] else [] := by
  dsimp only
  rw [Reply.engine_outcome, register, sensible, Sites.lookup?_eq_find?]
  dsimp only [Site.register]
  split
  · exact ⟨rfl, rfl⟩
  · exact ⟨rfl, (List.append_nil _).symm⟩

private theorem passing_register
    (tended : engine.Tended) (sound : engine.Sound) (query : Query)
    (registration : Registration) :
    engine.Passing (.register query registration)
      (engine.perform (.register query registration)).2 := by
  have nextSound :
      (engine.perform (.register query registration)).2.Sound :=
    sound.perform trivial
  have named :
      (engine.perform (.register query registration)).2.Named :=
    tended.named.perform sound trivial
  rw [perform] at nextSound named ⊢
  cases sensible : query.selection.validate with
  | error failure =>
      have refused : (engine.register query registration).outcome.2 =
          engine := by
        rw [Reply.engine_outcome, register, sensible]
      rw [refused]
      exact (tended.untouched_of_sites rfl rfl).passing tended
        (fun _ _ => rfl) fun _ => rfl
  | ok _ =>
      obtain ⟨sites, signals⟩ :=
        engine.register_ok sensible registration
      generalize (engine.register query registration).outcome.2 = next
        at nextSound named sites signals ⊢
      -- The view that is joined, whether it was there before or is created.
      let view := (engine.sites.lookup? query.path query.identifier).getD
        (.create query (engine.sites.serverCache query.path)
          (engine.pending.at query.path))
      have joined : (view.joinedBy registration).Attended := by
        refine ⟨List.concat_ne_nil _ _, ?_⟩
        dsimp only [View.joinedBy, view]
        cases found : engine.sites.lookup? query.path query.identifier with
        | none => rfl
        | some old => exact (tended.attended _ _ old found).lasting
      have here : next.sites.lookup? query.path query.identifier =
          some (view.joinedBy registration) := by
        rw [sites]
        exact Sites.lookup?_place_self
      have elsewhere (path : Path) (identifier : String)
          (other : query.isAt path identifier = false) :
          next.sites.lookup? path identifier =
            engine.sites.lookup? path identifier := by
        rw [sites]
        refine Sites.lookup?_place_of_ne (not_and_or.mp ?_)
        rw [← Query.isAt_iff, other]
        exact Bool.false_ne_true
      refine ⟨⟨nextSound.sites, named,
        sites ▸ inhabited_place tended.inhabited _ _ _,
        fun path identifier other found => ?_⟩,
        _, signals, fun path identifier => ?_⟩
      · cases isHere : query.isAt path identifier with
        | true =>
            obtain ⟨rfl, rfl⟩ := Query.isAt_iff.mp isHere
            cases here.symm.trans found
            exact joined
        | false =>
            rw [elsewhere path identifier isHere] at found
            exact tended.attended path identifier other found
      · cases isHere : query.isAt path identifier with
        | true =>
            obtain ⟨rfl, rfl⟩ := Query.isAt_iff.mp isHere
            rw [here]
            dsimp only [view]
            cases found :
                engine.sites.lookup? query.path query.identifier with
            | none =>
                have about : Signal.about query.path query.identifier
                    [.start query] = [.start query] :=
                  List.filter_cons_of_pos isHere
                rw [Option.isNone_none, if_pos rfl, about]
                exact .created rfl rfl
            | some old => exact .unattended rfl rfl rfl
        | false =>
            have silent : Signal.about path identifier
                (if (engine.sites.lookup? query.path
                    query.identifier).isNone then [.start query]
                  else []) = [] := by
              split
              · exact List.filter_cons_of_neg (by
                  rw [Signal.query, isHere]
                  exact Bool.false_ne_true)
              · rfl
            rw [elsewhere path identifier isHere, silent]
            cases engine.sites.lookup? path identifier with
            | none => exact .absent
            | some old => exact .unattended rfl rfl rfl

/-! ## Revocation -/

theorem lookup?_revoke
    (tended : engine.Tended) (above path : Path) (identifier : String) :
    (engine.revoke above).2.sites.lookup? path identifier =
      if Path.contains above path then none
      else engine.sites.lookup? path identifier := by
  rw [sites_revoke, Sites.lookup?, Sites.lookup?,
    Sorted.find?_filter _ tended.sound.ascending]
  cases Sorted.find? path engine.sites with
  | none => exact (ite_self none).symm
  | some site =>
      cases contained : Path.contains above path with
      | false => simp [Option.filter, contained]
      | true => simp [Option.filter, contained]

private theorem passing_revoke
    (tended : engine.Tended) (above : Path) :
    engine.Passing (.revoke above) (engine.revoke above).2 := by
  have narrows := narrows_revoke tended.sound above
  have still {path : Path} {identifier : String} {view : View}
      (found : (engine.revoke above).2.sites.lookup? path identifier =
        some view) :
      engine.sites.lookup? path identifier = some view := by
    rw [lookup?_revoke tended] at found
    split at found
    · cases found
    · exact found
  refine ⟨⟨narrows.sound,
    fun path identifier view found =>
      tended.named path identifier view (still found),
    fun entry member => ?_,
    fun path identifier view found =>
      tended.attended path identifier view (still found)⟩,
    [], (List.append_nil _).symm, fun path identifier => ?_⟩
  · rw [sites_revoke] at member
    exact tended.inhabited entry (List.mem_filter.mp member).1
  · rw [lookup?_revoke tended]
    cases engine.sites.lookup? path identifier with
    | none =>
        rw [ite_self]
        exact .absent
    | some old =>
        cases contained : Path.contains above path with
        | true => exact .revoked contained
        | false => exact .unattended rfl rfl contained

/-- A call that is not about listeners leaves them alone. -/
theorem untouched_perform
    (tended : engine.Tended) (sound : engine.Sound) {call : Call}
    (valid : call.Valid) (listens : call.listens = false) :
    engine.Untouched (engine.perform call).2 := by
  have handles := handles_perform sound valid listens
  generalize (engine.perform call).2 = next at handles ⊢
  cases handles with
  | noted _ => exact tended.untouched_of_sites rfl rfl
  | run queues operationValid =>
      exact tended.untouched_run _ operationValid
        (queues.sound sound.pending valid)

theorem passing_perform
    (tended : engine.Tended) (sound : engine.Sound) {call : Call}
    (valid : call.Valid) :
    engine.Passing call (engine.perform call).2 := by
  cases listens : call.listens with
  | false =>
      have untouched := untouched_perform tended sound valid listens
      cases call with
      | register _ _ => cases listens
      | unregister _ _ => cases listens
      | removeListener _ => cases listens
      | revoke _ => cases listens
      | _ =>
          exact untouched.passing tended (fun _ _ => rfl) fun _ => rfl
  | true =>
      cases call with
      | register query registration =>
          exact passing_register tended sound query registration
      | unregister query listener =>
          exact (departs_unregister tended query listener).passing tended
            fun _ => rfl
      | removeListener listener =>
          have departs : engine.Departs
              (fun path identifier => View.leftBy?
                ((Call.removeListener listener).leaver? path identifier))
              (engine.removeListener listener).2 :=
            departs_removeListener tended listener
          exact departs.passing tended fun _ => rfl
      | revoke above => exact passing_revoke tended above
      | _ => cases listens

end Engine

end Replica
