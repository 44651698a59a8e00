import Replica.Proofs.Engine.Attendance

/-!
# What the connection is told

The connection is told of every view that begins and of every one whose last listener leaves, and
of nothing else. So at every place the starts are as many as the stops, the revocations and the
view that is there, if one is.
-/

namespace Replica

namespace Signal

def isStart : Signal → Bool
  | .start _ => true
  | .stop _ => false

/-- How often the connection was asked for the data of a place. -/
def starts (path : Path) (identifier : String) (signals : List Signal) : Nat :=
  (about path identifier signals).countP isStart

/-- How often the connection was told that the data of a place is no longer needed. -/
def stops (path : Path) (identifier : String) (signals : List Signal) : Nat :=
  (about path identifier signals).countP (!·.isStart)

private theorem starts_append
    (path : Path) (identifier : String) (first second : List Signal) :
    starts path identifier (first ++ second) =
      starts path identifier first + starts path identifier second := by
  rw [starts, about, List.filter_append, List.countP_append]
  rfl

private theorem stops_append
    (path : Path) (identifier : String) (first second : List Signal) :
    stops path identifier (first ++ second) =
      stops path identifier first + stops path identifier second := by
  rw [stops, about, List.filter_append, List.countP_append]
  rfl

end Signal

namespace View

private theorem Attended.stage_eq
    {view : View} (attended : view.Attended) :
    view.stage =
      if view.caches.server.complete then
        if view.filter.drops then .filteredActive else .active
      else .serverPending := by
  have listened : view.isEmpty = false := by
    simpa [isEmpty] using attended.listened
  rw [stage, attended.lasting, listened]
  rfl

private theorem Attended.stage_mem
    {view : View} (attended : view.Attended) :
    view.stage ∈ [Stage.serverPending, .active, .filteredActive] := by
  rw [attended.stage_eq]
  split
  · split
    · simp
    · simp
  · simp

/-- A view that keeps its query and its complete data keeps its stage. -/
theorem Attended.stage_eq_of_lasting
    {old view : View} (before : old.Attended) (attended : view.Attended)
    (query : view.query = old.query)
    (keeps : old.caches.server.complete = true →
      view.caches.server.complete = true)
    (active : old.stage ≠ .serverPending) : view.stage = old.stage := by
  rw [before.stage_eq] at active
  cases complete : old.caches.server.complete with
  | false =>
      rw [complete] at active
      exact absurd rfl active
  | true =>
      rw [attended.stage_eq, before.stage_eq, complete, keeps complete,
        filter, filter, query]

end View

private theorem Call.spares_of_leaver?
    {call : Call} {path : Path} {identifier : String}
    {listener : ListenerId}
    (leaves : call.leaver? path identifier = some listener) :
    call.revokes path = false := by
  cases call with
  | revoke above => cases leaves
  | _ => rfl

namespace Engine

variable {engine : Engine} {path : Path} {identifier : String}

/-- A revocation returns the views at and below its location, each once and with its listeners. -/
theorem Tended.revoked_at
    (tended : engine.Tended) (above path : Path) (identifier : String) :
    (engine.revoke above).1.filter (·.1.isAt path identifier) =
      if Path.contains above path then
        ((engine.sites.lookup? path identifier).map fun view =>
          (view.query, view.registrations.map (·.id))).toList
      else [] := by
  let part (site : Site) : List (Query × List ListenerId) :=
    ((Sorted.find? identifier site).map fun view =>
      (view.query, view.registrations.map (·.id))).toList
  have dropped : (engine.revoke above).1 =
      (engine.sites.filter fun entry =>
        Path.contains above entry.1).flatMap fun entry =>
          entry.2.listeners := by
    rw [revoke, List.partition_eq_filter_filter]
  have parts : ∀ entry ∈ engine.sites.filter
      (fun entry => Path.contains above entry.1),
      entry.2.listeners.filter (·.1.isAt path identifier) =
        if entry.1 == path then part entry.2 else [] := by
    intro entry member
    have found := Sorted.find?_of_mem tended.sound.ascending
      (List.mem_filter.mp member).1
    rw [Site.listeners, List.filter_map]
    change (entry.2.filter fun other =>
      other.2.query.isAt path identifier).map _ = _
    rw [tended.filter_isAt found]
    by_cases here : path = entry.1
    · rw [if_pos here, if_pos (by simp [here])]
      dsimp only [part]
      cases Sorted.find? identifier entry.2 <;> rfl
    · rw [if_neg here, if_neg (by simpa using Ne.symm here)]
      rfl
  rw [dropped, List.filter_flatMap, List.flatMap_congr parts,
    Sorted.flatMap_key (Sorted.ascending_filter _ tended.sound.ascending),
    Sorted.find?_filter _ tended.sound.ascending, Sites.lookup?]
  cases Sorted.find? path engine.sites with
  | none => exact (ite_self _).symm
  | some site =>
      cases contained : Path.contains above path with
      | false => simp [Option.filter, contained]
      | true => simp [Option.filter, contained, part]

/-- The queries that a call revokes, with their listeners. -/
def revoked (engine : Engine) : Call → List (Query × List ListenerId)
  | .revoke path => (engine.revoke path).1
  | _ => []

/-- How often the view at a place is revoked in a run. -/
def revocations (path : Path) (identifier : String) :
    Engine → List Call → Nat
  | _, [] => 0
  | engine, call :: rest =>
      (engine.revoked call).countP (·.1.isAt path identifier) +
        revocations path identifier (engine.perform call).2 rest

/-- How many views stand at a place, which is one at most. -/
def live (engine : Engine) (path : Path) (identifier : String) : Nat :=
  if (engine.sites.lookup? path identifier).isSome then 1 else 0

private theorem Tended.countP_revoked
    (tended : engine.Tended) (call : Call) (path : Path)
    (identifier : String) :
    (engine.revoked call).countP (·.1.isAt path identifier) =
      if call.revokes path then engine.live path identifier else 0 := by
  cases call with
  | revoke above =>
      rw [revoked, List.countP_eq_length_filter, tended.revoked_at,
        Call.revokes, live]
      split
      · cases engine.sites.lookup? path identifier <;> rfl
      · rfl
  | _ => rfl

/-- A call balances the signals about a place with the view that comes or goes there. -/
theorem Passing.balance
    {call : Call} {next : Engine} (passing : engine.Passing call next)
    (tended : engine.Tended) (path : Path) (identifier : String) :
    Signal.starts path identifier next.signals +
        Signal.stops path identifier engine.signals +
          engine.live path identifier =
      Signal.starts path identifier engine.signals +
        Signal.stops path identifier next.signals +
          (engine.revoked call).countP (·.1.isAt path identifier) +
            next.live path identifier := by
  obtain ⟨said, signals, passes⟩ := passing.signals
  have pass := passes path identifier
  rw [tended.countP_revoked, signals, Signal.starts_append,
    Signal.stops_append, live, live]
  have starts : Signal.starts path identifier said =
    (Signal.about path identifier said).countP Signal.isStart := rfl
  have stops : Signal.stops path identifier said =
    (Signal.about path identifier said).countP (!·.isStart) := rfl
  rw [starts, stops]
  -- Only the signals about this place count, so the ways in which the call passes it decide.
  generalize engine.sites.lookup? path identifier = before at pass ⊢
  generalize next.sites.lookup? path identifier = after at pass ⊢
  generalize Signal.about path identifier said = told at pass ⊢
  cases pass with
  | absent => simp
  | created isCall _ =>
      subst isCall
      simp [Call.revokes, Signal.isStart]
      omega
  | stays _ _ spared =>
      simp [spared]
  | left leaves _ =>
      simp [Call.spares_of_leaver? leaves, Signal.isStart]
      omega
  | revoked revokes =>
      simp [revokes]

/-! ## Runs -/

private theorem Tended.after
    (tended : engine.Tended) (sound : engine.Sound) {calls : List Call}
    (valid : ∀ call ∈ calls, call.Valid) :
    (engine.after calls).Tended :=
  sound.after_of_perform Tended
    (fun before callValid tended =>
      (passing_perform tended before callValid).tended) tended valid

/-- A run balances the signals about a place with the view that is there. -/
theorem Tended.balance_after
    (tended : engine.Tended) (sound : engine.Sound) {calls : List Call}
    (valid : ∀ call ∈ calls, call.Valid) (path : Path)
    (identifier : String) :
    Signal.starts path identifier (engine.after calls).signals +
        Signal.stops path identifier engine.signals +
          engine.live path identifier =
      Signal.starts path identifier engine.signals +
        Signal.stops path identifier (engine.after calls).signals +
          revocations path identifier engine calls +
            (engine.after calls).live path identifier := by
  induction calls generalizing engine with
  | nil =>
      have unchanged : engine.after [] = engine := rfl
      rw [unchanged, revocations]
      omega
  | cons call rest inductionHypothesis =>
      obtain ⟨first, others⟩ := List.forall_mem_cons.mp valid
      have passing := passing_perform tended sound first
      have now := passing.balance tended path identifier
      have later := inductionHypothesis passing.tended
        (sound.perform first) others
      have stepped : engine.after (call :: rest) =
          (engine.perform call).2.after rest := rfl
      rw [stepped, revocations]
      omega

/-- What the listeners and the connection can rely on after a run. -/
structure Accounted (config : Config) (calls : List Call) : Prop where
  inhabited : ∀ entry ∈ ((create config).after calls).sites, entry.2 ≠ []
  attended : ∀ path identifier view,
    ((create config).after calls).sites.lookup? path identifier =
      some view →
    view.registrations ≠ [] ∧
      view.stage ∈ [Stage.serverPending, .active, .filteredActive]
  /-- A view that has left the first stage stays where it is. -/
  activated : ∀ more : List Call, (∀ call ∈ more, call.Valid) →
    ∀ path identifier old view,
      ((create config).after calls).sites.lookup? path identifier =
        some old →
      Lasts path identifier ((create config).after calls) more →
      ((create config).after (calls ++ more)).sites.lookup? path
        identifier = some view →
      old.stage ≠ .serverPending → view.stage = old.stage
  /-- Starts and stops are signalled for the views that begin and end, and for no others. -/
  passes : ∀ call : Call, call.Valid →
    ∃ said, (((create config).after calls).perform call).2.signals =
        ((create config).after calls).signals ++ said ∧
      ∀ path identifier, Passes call path identifier
        (((create config).after calls).sites.lookup? path identifier)
        ((((create config).after calls).perform call).2.sites.lookup? path
          identifier)
        (Signal.about path identifier said)
  balance : ∀ path identifier,
    Signal.starts path identifier
        ((create config).after calls).signals =
      Signal.stops path identifier ((create config).after calls).signals +
        revocations path identifier (create config) calls +
          ((create config).after calls).live path identifier
  /-- A revocation returns the views at and below its location, each once and with its
  listeners. -/
  revoked : ∀ above path identifier,
    (((create config).after calls).revoke above).1.filter
        (·.1.isAt path identifier) =
      if Path.contains above path then
        ((((create config).after calls).sites.lookup? path
          identifier).map fun view =>
            (view.query, view.registrations.map (·.id))).toList
      else []

/-- In every run the views are there for their listeners, and the connection is told of exactly
those that begin and of those whose last listener leaves. -/
theorem listens_accounted
    (config : Config) (calls : List Call)
    (valid : ∀ call ∈ calls, call.Valid) : Accounted config calls := by
  have sound := (Sound.create config).after valid
  have tended := (tended_create config).after (Sound.create config) valid
  refine ⟨tended.inhabited, fun path identifier view found => ?_, ?_,
    fun call callValid => (passing_perform tended sound callValid).signals,
    fun path identifier => ?_, tended.revoked_at⟩
  · have attended := tended.attended path identifier view found
    exact ⟨attended.listened, attended.stage_mem⟩
  · intro more moreValid path identifier old view before lasts found
    rw [after_append] at found
    obtain ⟨query, keeps⟩ := lasts.server sound moreValid before found
    exact (tended.attended path identifier old before).stage_eq_of_lasting
      ((tended.after sound moreValid).attended path identifier view found)
      query keeps
  · have balance := (tended_create config).balance_after
      (Sound.create config) valid path identifier
    have nothing : (create config).live path identifier = 0 := rfl
    have unsaid : Signal.starts path identifier
      (create config).signals = 0 := rfl
    have unstopped : Signal.stops path identifier
      (create config).signals = 0 := rfl
    omega

def firstQuery : Query :=
  { path := [⟨"v"⟩], selection := { limit? := some (.first 1) } }

/-- Two queries of one location with a listener in common, of which one ends with it, and a third
one that is revoked and listened to again. -/
def comingAndGoing : List Call :=
  [.register { path := [⟨"v"⟩] } (.all 1), .register firstQuery (.all 1),
    .register { path := [⟨"v"⟩] } (.all 2),
    .register { path := [⟨"v"⟩, ⟨"w"⟩] } (.all 3), .listenComplete [⟨"v"⟩],
    .revoke [⟨"v"⟩, ⟨"w"⟩], .removeListener 1,
    .register { path := [⟨"v"⟩, ⟨"w"⟩] } (.all 3)]

theorem listens_accounted_coming_and_going :
    Accounted { session := "" } comingAndGoing ∧
      Signal.starts [⟨"v"⟩] firstQuery.identifier
        ((create { session := "" }).after comingAndGoing).signals = 1 ∧
      Signal.stops [⟨"v"⟩] firstQuery.identifier
        ((create { session := "" }).after comingAndGoing).signals = 1 ∧
      Signal.starts [⟨"v"⟩, ⟨"w"⟩] "default"
        ((create { session := "" }).after comingAndGoing).signals = 2 ∧
      revocations [⟨"v"⟩, ⟨"w"⟩] "default" (create { session := "" })
        comingAndGoing = 1 := by
  have valid : ∀ call ∈ comingAndGoing, call.Valid := by
    simp [comingAndGoing, Call.Valid]
  refine ⟨listens_accounted _ _ valid, ?_, ?_, ?_, ?_⟩
  · decide +kernel
  · decide +kernel
  · decide +kernel
  · decide +kernel

end Engine

end Replica
