import Replica.Proofs.Engine.Step
import Replica.Proofs.View.Mirror

/-!
# What a listener is told in a run

A listener that is registered once hears of one view only, and of every operation that this view
takes. From what it is told it can rebuild the children of the view exactly if every child that
the view showed when the listener came has been announced to it.
-/

namespace Replica

def View.HeardBy (view : View) (listener : ListenerId) : Prop :=
  ∃ registration ∈ view.registrations, registration.id = listener

private theorem View.Sound.heardBy_of_mem_tidings
    {view : View} {path : Path} (sound : view.Sound path) {caches : Caches}
    {ledger : Ledger} {event : Event}
    (member : event ∈ view.tidings caches ledger) :
    view.HeardBy event.listener := by
  obtain ⟨_, registration, attached, named⟩ := sound.mem_tidings member
  exact ⟨registration, attached, named.symm⟩

/-- The first events are for the new listener only. -/
theorem View.listener_of_mem_initialEvents
    {view : View} {registration : Registration} {event : Event}
    (member : event ∈ view.initialEvents registration) :
    event.listener = registration.id := by
  unfold View.initialEvents at member
  split at member
  · cases member
  · obtain ⟨_, other, isOther, named⟩ := View.mem_ofChanges member
    rw [List.mem_singleton.mp isOther] at named
    exact named

/-! ## One operation -/

/-- When one view of a site has the listener, what the listener is told is what that view tells. -/
theorem Site.Sound.tells_iff
    {site : Site} {path : Path} (sound : site.Sound path)
    {vantage : Vantage} (pendingSound : vantage.pending.Sound)
    {ancestor? : Option Node}
    (ancestorCanonical : ∀ ancestor ∈ ancestor?, ancestor.Canonical)
    {operation : Operation} (valid : operation.Valid)
    {identifier : String} {view : View}
    (found : Sorted.find? identifier site = some view)
    {listener : ListenerId}
    (only : ∀ other otherView,
      Sorted.find? other site = some otherView →
      otherView.HeardBy listener → other = identifier) :
    ∃ ledger,
      Caches.Accounts view.caches
          (view.after operation vantage ancestor?).caches ledger ∧
        ∀ event : Event, event.listener = listener →
          (site.Tells operation vantage ancestor? event ↔
            event ∈ view.tidings
              (view.after operation vantage ancestor?).caches ledger) := by
  have member := Sorted.mem_of_find?_eq_some found
  obtain ⟨ledger, applied, accounts⟩ :=
    (sound.sound _ member).apply_ok pendingSound ancestorCanonical valid
  refine ⟨ledger, accounts, fun event isOurs => ?_⟩
  constructor
  · intro tells
    obtain ⟨other, otherView, otherFound, otherSound, otherLedger,
        otherApplied, isTold⟩ :=
      sound.mem_tidings_of_tells pendingSound ancestorCanonical valid tells
    obtain rfl := only other otherView otherFound
      (isOurs ▸ otherSound.heardBy_of_mem_tidings isTold)
    rw [found] at otherFound
    cases otherFound
    rw [applied] at otherApplied
    have sameTold := (Prod.mk.inj (Except.ok.inj otherApplied)).1
    rw [sameTold]
    exact isTold
  · exact fun isTold => ⟨_, member, _, _, applied, isTold⟩

namespace Sites

variable {pending : Pending} {operation : Operation} {sites next : Sites}
  {events : List Event} {listener : ListenerId} {path : Path}
  {identifier : String}

/-- An event of routing is told by a view that its listener is attached to. -/
theorem Delivered.heardBy
    (delivered : Delivered pending operation sites next events)
    (sound : sites.Sound) (pendingSound : pending.Sound)
    (valid : operation.Valid) {event : Event} (member : event ∈ events) :
    ∃ identifier view,
      sites.lookup? event.path identifier = some view ∧
        view.HeardBy event.listener := by
  obtain ⟨relative, site, ancestor?, reaches, siteFound, canonical, tells⟩ :=
    delivered.tells member
  have vantageSound : (pending.at event.path).pending.Sound := pendingSound
  obtain ⟨identifier, view, found, viewSound, _, _, isTold⟩ :=
    (sound.site siteFound).mem_tidings_of_tells vantageSound canonical
      (shows_of_reaching? valid reaches).valid tells
  exact ⟨identifier, view,
    lookup?_eq_some_iff.mpr ⟨site, siteFound, found⟩,
    viewSound.heardBy_of_mem_tidings isTold⟩

/-- When a listener is attached to one view only, what routing tells it is what that view tells,
and nothing if the view is not reached. -/
theorem Delivered.hears
    (delivered : Delivered pending operation sites next events)
    (sound : sites.Sound) (pendingSound : pending.Sound)
    (valid : operation.Valid)
    (only : ∀ otherPath otherIdentifier otherView,
      sites.lookup? otherPath otherIdentifier = some otherView →
      otherView.HeardBy listener →
        otherPath = path ∧ otherIdentifier = identifier)
    {old view : View} (oldFound : sites.lookup? path identifier = some old)
    (found : next.lookup? path identifier = some view) :
    (view.caches = old.caches ∧
        ∀ event ∈ events, event.listener ≠ listener) ∨
      ∃ ledger,
        Caches.Accounts old.caches view.caches ledger ∧
          ∀ event : Event, event.listener = listener →
            (event ∈ events ↔ event ∈ old.tidings view.caches ledger) := by
  have located {event : Event} (member : event ∈ events)
      (isOurs : event.listener = listener) : event.path = path := by
    obtain ⟨_, _, otherFound, isHeard⟩ :=
      delivered.heardBy sound pendingSound valid member
    exact (only _ _ _ otherFound (isOurs ▸ isHeard)).1
  rcases delivered.view sound found with
    ⟨missed, sameFound⟩ |
      ⟨relative, site, before, ancestor?, reaches, siteFound, beforeFound,
        canonical, result, told⟩
  · rw [oldFound] at sameFound
    cases sameFound
    refine Or.inl ⟨rfl, fun event member isOurs => ?_⟩
    exact (delivered.missed path (Or.inl missed)).2 event member
      (located member isOurs)
  · have isOld := lookup?_eq_some_iff.mpr ⟨site, siteFound, beforeFound⟩
    rw [oldFound] at isOld
    cases isOld
    have vantageSound : (pending.at path).pending.Sound := pendingSound
    obtain ⟨ledger, accounts, tells⟩ :=
      (sound.site siteFound).tells_iff vantageSound canonical
        (shows_of_reaching? valid reaches).valid beforeFound
        fun name otherView otherFound isHeard =>
          (only path name otherView (lookup?_eq_some_iff.mpr
            ⟨site, siteFound, otherFound⟩) isHeard).2
    rw [← result] at accounts tells
    refine Or.inr ⟨ledger, accounts, fun event isOurs => ?_⟩
    constructor
    · intro member
      have here := (told event (located member isOurs)).mp member
      exact (tells event isOurs).mp here
    · intro member
      have oldSound := sound.view oldFound
      exact (told event (oldSound.mem_tidings member).1).mpr
        ((tells event isOurs).mpr member)

end Sites

namespace Engine

variable {engine : Engine} {call : Call} {outcome : List Event × Engine}

/-! ## One call -/

/-- A registration was there before, or the call has made it and raised its first events. -/
theorem Course.registered
    (course : Course engine call outcome) (sound : engine.Sound)
    {path : Path} {identifier : String} {view : View}
    (found : outcome.2.sites.lookup? path identifier = some view)
    {registration : Registration}
    (attached : registration ∈ view.registrations) :
    (∃ old, engine.sites.lookup? path identifier = some old ∧
        registration ∈ old.registrations) ∨
      ∃ query existing, call = .register query registration ∧
        path = query.path ∧ identifier = query.identifier ∧
        view = View.joinedBy existing registration ∧
        outcome.1 = existing.initialEvents registration := by
  cases course with
  | quiet sites _ _ _ _ =>
      dsimp only at found
      rw [sites] at found
      exact Or.inl ⟨view, found, attached⟩
  | routed _ _ _ delivered _ _ _ _ =>
      rcases delivered.view sound.sites found with
        ⟨_, oldFound⟩ |
          ⟨relative, site, old, ancestor?, _, siteFound, oldFound, _,
            result, _⟩
      · exact Or.inl ⟨view, oldFound, attached⟩
      · rw [result] at attached
        exact Or.inl ⟨old, Sites.lookup?_eq_some_iff.mpr
          ⟨site, siteFound, oldFound⟩, attached⟩
  | narrowed _ narrows _ =>
      obtain ⟨old, oldFound, _, _, registrations⟩ :=
        narrows.views path identifier view found
      exact Or.inl ⟨old, oldFound, registrations attached⟩
  | @joined query newcomer existing next isCall _ _ origin here elsewhere =>
      dsimp only at found
      by_cases isHere :
          path = query.path ∧ identifier = query.identifier
      · obtain ⟨rfl, rfl⟩ := isHere
        rw [here] at found
        cases found
        rcases List.mem_append.mp attached with before | isNew
        · rcases origin with oldFound | ⟨_, created⟩
          · exact Or.inl ⟨existing, oldFound, before⟩
          · rw [created] at before
            cases before
        · cases List.mem_singleton.mp isNew
          exact Or.inr ⟨query, existing, isCall, rfl, rfl, rfl, rfl⟩
      · have different := not_and_or.mp isHere
        rw [elsewhere path identifier different] at found
        exact Or.inl ⟨view, found, attached⟩

/-- What a listener is told during a call that does not register it: nothing, and its view has
stayed as it was, or exactly what its view tells of its changes. -/
theorem Course.hears
    (course : Course engine call outcome) (sound : engine.Sound)
    {listener : ListenerId} (other : ¬ call.Registers listener)
    {path : Path} {identifier : String} {old view : View}
    (only : ∀ otherPath otherIdentifier otherView,
      engine.sites.lookup? otherPath otherIdentifier = some otherView →
      otherView.HeardBy listener →
        otherPath = path ∧ otherIdentifier = identifier)
    (oldFound : engine.sites.lookup? path identifier = some old)
    (found : outcome.2.sites.lookup? path identifier = some view) :
    (view.caches = old.caches ∧
        ∀ event ∈ outcome.1, event.listener ≠ listener) ∨
      ∃ ledger,
        Caches.Accounts old.caches view.caches ledger ∧
          ∀ event : Event, event.listener = listener →
            (event ∈ outcome.1 ↔
              event ∈ old.tidings view.caches ledger) := by
  have nothing : ∀ event ∈ ([] : List Event),
      event.listener ≠ listener :=
    fun _ member => absurd member List.not_mem_nil
  cases course with
  | quiet sites _ _ _ _ =>
      dsimp only at found
      rw [sites, oldFound] at found
      cases found
      exact Or.inl ⟨rfl, nothing⟩
  | routed valid pending _ delivered _ _ _ _ =>
      exact delivered.hears sound.sites pending valid only oldFound found
  | narrowed _ narrows _ =>
      obtain ⟨before, beforeFound, _, caches, _⟩ :=
        narrows.views path identifier view found
      rw [oldFound] at beforeFound
      cases beforeFound
      exact Or.inl ⟨caches, nothing⟩
  | @joined query newcomer existing next isCall _ _ origin here elsewhere =>
      subst isCall
      have notOurs : ∀ event ∈ existing.initialEvents newcomer,
          event.listener ≠ listener := by
        intro event member isOurs
        have isNewcomer := View.listener_of_mem_initialEvents member
        exact other (isNewcomer.symm.trans isOurs)
      refine Or.inl ⟨?_, notOurs⟩
      dsimp only at found
      by_cases isHere :
          path = query.path ∧ identifier = query.identifier
      · obtain ⟨rfl, rfl⟩ := isHere
        rw [here] at found
        cases found
        rcases origin with sameFound | ⟨absent, _⟩
        · rw [oldFound] at sameFound
          cases sameFound
          rfl
        · rw [oldFound] at absent
          cases absent
      · have different := not_and_or.mp isHere
        rw [elsewhere path identifier different, oldFound] at found
        cases found
        rfl

/-! ## Runs -/

def Silent (engine : Engine) (listener : ListenerId) : Prop :=
  ∀ path identifier view,
    engine.sites.lookup? path identifier = some view →
      ¬ view.HeardBy listener

private theorem silent_create (config : Config) (listener : ListenerId) :
    (create config).Silent listener := by
  intro path identifier view found
  cases found

private theorem Silent.perform
    {listener : ListenerId} (silent : engine.Silent listener)
    (sound : engine.Sound) (valid : call.Valid)
    (other : ¬ call.Registers listener) :
    (engine.perform call).2.Silent listener := by
  rintro path identifier view found ⟨registration, attached, rfl⟩
  rcases (course_perform sound valid).registered sound found attached with
    ⟨old, oldFound, wasAttached⟩ | ⟨query, _, isCall, _⟩
  · exact silent path identifier old oldFound
      ⟨registration, wasAttached, rfl⟩
  · rw [isCall] at other
    exact other rfl

private theorem Silent.after
    {listener : ListenerId} (silent : engine.Silent listener)
    (sound : engine.Sound) {calls : List Call}
    (valid : ∀ call ∈ calls, call.Valid)
    (others : ∀ call ∈ calls, ¬ call.Registers listener) :
    (engine.after calls).Silent listener :=
  sound.after_of_admitted (·.Silent listener) (¬ ·.Registers listener)
    (fun before callValid other silent =>
      silent.perform before callValid other) silent valid others

def told (listener : ListenerId) (events : List Event) : List Event :=
  events.filter (·.listener == listener)

private theorem mem_told {listener : ListenerId} {events : List Event}
    {event : Event} :
    event ∈ told listener events ↔
      event ∈ events ∧ event.listener = listener := by
  unfold told
  rw [List.mem_filter, beq_iff_eq]

/-- A registration is attached to the view of one query only, and its listener has followed this
view since it showed the first node. -/
structure Follows (engine : Engine) (query : Query)
    (registration : Registration) (first : Node) (events : List Event) :
    Prop where
  only : ∀ path identifier view,
    engine.sites.lookup? path identifier = some view →
    ∀ other ∈ view.registrations, other.id = registration.id →
      path = query.path ∧ identifier = query.identifier ∧
        other = registration
  follows : ∀ view,
    engine.sites.lookup? query.path query.identifier = some view →
    registration ∈ view.registrations →
      Replica.Follows first events view.caches.visible.node

variable {query : Query} {registration : Registration} {first : Node}
  {events : List Event}

private theorem Follows.perform
    (follows : engine.Follows query registration first events)
    (sound : engine.Sound) (valid : call.Valid)
    (wants : ∀ kind ∈ ChangeKind.ofChildren,
      registration.wants kind = true)
    (other : ¬ call.Registers registration.id) :
    (engine.perform call).2.Follows query registration first
      (events ++ told registration.id (engine.perform call).1) := by
  have course := course_perform sound valid
  have registered {path : Path} {identifier : String} {view : View}
      (found : (engine.perform call).2.sites.lookup? path identifier =
        some view)
      {another : Registration} (attached : another ∈ view.registrations)
      (sameId : another.id = registration.id) :
      ∃ old, engine.sites.lookup? path identifier = some old ∧
        another ∈ old.registrations := by
    rcases course.registered sound found attached with
      wasThere | ⟨_, _, isCall, _⟩
    · exact wasThere
    · rw [isCall] at other
      exact absurd sameId other
  constructor
  · intro path identifier view found another attached sameId
    obtain ⟨old, oldFound, wasAttached⟩ := registered found attached sameId
    exact follows.only path identifier old oldFound another wasAttached
      sameId
  · intro view found attached
    obtain ⟨old, oldFound, wasAttached⟩ := registered found attached rfl
    have before := follows.follows old oldFound wasAttached
    have heard :=
      course.hears sound other
        (fun path identifier view found ⟨another, isAttached, sameId⟩ =>
          let here := follows.only path identifier view found another
            isAttached sameId
          ⟨here.1, here.2.1⟩) oldFound found
    rcases heard with ⟨caches, nothing⟩ | ⟨ledger, accounts, tells⟩
    · have silent : told registration.id (engine.perform call).1 = [] := by
        refine List.eq_nil_iff_forall_not_mem.mpr fun event member => ?_
        exact nothing event (mem_told.mp member).1 (mem_told.mp member).2
      rw [silent, List.append_nil, caches]
      exact before
    · refine before.append accounts wasAttached wants fun event => ?_
      rw [mem_told]
      exact and_congr_left fun isOurs => tells event isOurs

private theorem Follows.after
    (follows : engine.Follows query registration first events)
    (sound : engine.Sound) {calls : List Call}
    (valid : ∀ call ∈ calls, call.Valid)
    (wants : ∀ kind ∈ ChangeKind.ofChildren,
      registration.wants kind = true)
    (others : ∀ call ∈ calls, ¬ call.Registers registration.id) :
    (engine.after calls).Follows query registration first
      (events ++ told registration.id (engine.raised calls)) := by
  induction calls generalizing engine events with
  | nil =>
      change engine.Follows query registration first (events ++ [])
      rw [List.append_nil]
      exact follows
  | cons call rest inductionHypothesis =>
      obtain ⟨firstValid, restValid⟩ := List.forall_mem_cons.mp valid
      obtain ⟨other, restOthers⟩ := List.forall_mem_cons.mp others
      have next :=
        inductionHypothesis
          (follows.perform sound firstValid wants other)
          (sound.perform firstValid) restValid restOthers
      have split :
          told registration.id (engine.raised (call :: rest)) =
            told registration.id (engine.perform call).1 ++
              told registration.id
                ((engine.perform call).2.raised rest) :=
        List.filter_append _ _
      rw [split, ← List.append_assoc]
      exact next

/-- A listener that was attached nowhere follows the view that it comes to, and is told about all
children if the view is complete. -/
theorem follows_register
    (silent : engine.Silent registration.id) (sound : engine.Sound)
    {view : View}
    (live : (engine.perform
      (.register query registration)).2.Live query.path view)
    (attached : registration ∈ view.registrations) :
    let outcome := engine.perform (.register query registration)
    outcome.2.Follows query registration view.caches.visible.node
        (told registration.id outcome.1) ∧
      (view.caches.visible.complete = true →
        (∀ kind ∈ ChangeKind.ofChildren, registration.wants kind = true) →
        ∀ entry ∈ view.caches.visible.node.children,
          ∃ event ∈ told registration.id outcome.1,
            event.Announces entry.1) := by
  have valid : (Call.register query registration).Valid := trivial
  have course := course_perform sound valid
  have nextSound := sound.perform valid
  dsimp only
  have isNew {path : Path} {identifier : String} {other : View}
      (found : (engine.perform
          (.register query registration)).2.sites.lookup? path
        identifier = some other)
      {another : Registration} (isThere : another ∈ other.registrations)
      (sameId : another.id = registration.id) :
      another = registration ∧ path = query.path ∧
        identifier = query.identifier ∧
        ∃ existing, other = View.joinedBy existing registration ∧
          (engine.perform (.register query registration)).1 =
            existing.initialEvents registration := by
    rcases course.registered sound found isThere with
      ⟨old, oldFound, wasThere⟩ |
        ⟨_, existing, isCall, samePath, sameIdentifier, joined, raised⟩
    · exact absurd ⟨another, wasThere, sameId⟩
        (silent path identifier old oldFound)
    · cases isCall
      exact ⟨rfl, samePath, sameIdentifier, existing, joined, raised⟩
  obtain ⟨identifier, found⟩ := nextSound.lookup?_of_live live
  obtain ⟨_, _, rfl, existing, rfl, raised⟩ := isNew found attached rfl
  have canonical :=
    (nextSound.sites.view found).canonical.visible
  have allOurs : told registration.id
      (engine.perform (.register query registration)).1 =
        existing.initialEvents registration := by
    rw [raised]
    refine List.filter_eq_self.mpr fun event member => ?_
    exact beq_iff_eq.mpr (View.listener_of_mem_initialEvents member)
  rw [allOurs]
  refine ⟨⟨?_, ?_⟩, fun complete wants =>
    announced_of_complete complete wants⟩
  · intro path name other otherFound another isThere sameId
    obtain ⟨same, samePath, sameName, _⟩ :=
      isNew otherFound isThere sameId
    exact ⟨samePath, sameName, same⟩
  · intro other otherFound _
    rw [found] at otherFound
    cases otherFound
    exact follows_initialEvents canonical registration

/-- A listener registered once for all kinds of events of children can rebuild the children of its
view from what it is told exactly if the view was complete when the listener came, or everything
that the view showed then has been announced since. -/
theorem mirror_agrees_iff
    (config : Config) (before later : List Call) (query : Query)
    (registration : Registration)
    (validBefore : ∀ call ∈ before, call.Valid)
    (validLater : ∀ call ∈ later, call.Valid)
    (onceBefore : ∀ call ∈ before, ¬ call.Registers registration.id)
    (onceLater : ∀ call ∈ later, ¬ call.Registers registration.id)
    (wants : ∀ kind ∈ ChangeKind.ofChildren,
      registration.wants kind = true)
    {first now : View}
    (joined : ((create config).after
      (before ++ [.register query registration])).Live query.path first)
    (firstAttached : registration ∈ first.registrations)
    (live : ((create config).after
      (before ++ .register query registration :: later)).Live query.path
        now)
    (attached : registration ∈ now.registrations) :
    let events := told registration.id
      (((create config).after before).raised
        (.register query registration :: later))
    Node.sameAll (Event.mirror events)
        now.caches.visible.node.children = true ↔
      first.caches.visible.complete = true ∨
        ∀ entry ∈ first.caches.visible.node.children,
          ∃ event ∈ events, event.Announces entry.1 := by
  have sound := (Sound.create config).after validBefore
  have silent :=
    (silent_create config registration.id).after (Sound.create config)
      validBefore onceBefore
  rw [after_append] at joined live
  generalize (create config).after before = engine at *
  have valid : (Call.register query registration).Valid := trivial
  have joinedSound := sound.perform valid
  have finalSound := joinedSound.after validLater
  obtain ⟨follows, announced⟩ :=
    follows_register silent sound joined firstAttached
  have finalFollows := follows.after joinedSound validLater wants onceLater
  have split :
      told registration.id
          (engine.raised (.register query registration :: later)) =
        told registration.id
            (engine.perform (.register query registration)).1 ++
          told registration.id
            ((engine.perform
              (.register query registration)).2.raised later) :=
    List.filter_append _ _
  obtain ⟨firstIdentifier, firstFound⟩ :=
    joinedSound.lookup?_of_live joined
  obtain ⟨identifier, found⟩ := finalSound.lookup?_of_live live
  have location :=
    finalFollows.only query.path identifier now found registration attached
      rfl
  obtain ⟨_, rfl, _⟩ := location
  have following := finalFollows.follows now found attached
  rw [← split] at following
  dsimp only
  rw [following.sameAll_mirror_iff
    (joinedSound.sites.view firstFound).canonical.visible
    (finalSound.sites.view found).canonical.visible]
  constructor
  · exact Or.inr
  · rintro (complete | each)
    · intro entry member
      obtain ⟨event, eventMember, announces⟩ :=
        announced complete wants entry member
      refine ⟨event, ?_, announces⟩
      rw [split]
      exact List.mem_append_left _ eventMember
    · exact each

/-- A local write below a location, a listener for this location, and the data of the server. -/
def writeThenListen : List Call × Query × List Call :=
  ([.userOverwrite [⟨"v"⟩, ⟨"a"⟩] (.ofScalar (.bool true)) 1 true],
    { path := [⟨"v"⟩] },
    [.serverOverwrite [⟨"v"⟩]
      (.branch [(⟨"b"⟩, .ofScalar (.bool false))] none)])

theorem mirror_agrees_iff_write_then_listen :
    let (before, query, later) := writeThenListen
    let start := (create { session := "" }).after before
    let events := told 1
      (start.raised (.register query (.all 1) :: later))
    ∃ first now,
      (start.after [.register query (.all 1)]).Live query.path first ∧
        (start.after (.register query (.all 1) :: later)).Live query.path
          now ∧
        (Node.sameAll (Event.mirror events)
            now.caches.visible.node.children = true ↔
          first.caches.visible.complete = true ∨
            ∀ entry ∈ first.caches.visible.node.children,
              ∃ event ∈ events, event.Announces entry.1) := by
  have validBefore : ∀ call ∈ writeThenListen.1, call.Valid := by
    simp [writeThenListen, Call.Valid, Node.Canonical.ofScalar]
  have branch :
      (Node.branch [(⟨"b"⟩, .ofScalar (.bool false))] none).Canonical :=
    Node.Canonical.empty.setChild (Node.Canonical.ofScalar (.bool false))
      ⟨"b"⟩
  have validLater : ∀ call ∈ writeThenListen.2.2, call.Valid := by
    intro call member
    rw [List.mem_singleton.mp member]
    exact branch
  have onceBefore : ∀ call ∈ writeThenListen.1, ¬ call.Registers 1 := by
    simp [writeThenListen, Call.Registers]
  have onceLater : ∀ call ∈ writeThenListen.2.2, ¬ call.Registers 1 := by
    simp [writeThenListen, Call.Registers]
  have wants : ∀ kind ∈ ChangeKind.ofChildren,
      (Registration.all 1).wants kind = true := by
    decide
  have joined : ∃ first,
      ((create { session := "" }).after (writeThenListen.1 ++
        [.register writeThenListen.2.1 (.all 1)])).Live [⟨"v"⟩] first ∧
        Registration.all 1 ∈ first.registrations :=
    ⟨_, ⟨_, _, List.mem_singleton_self _, List.mem_singleton_self _⟩,
      List.mem_singleton_self _⟩
  have final : ∃ now,
      ((create { session := "" }).after (writeThenListen.1 ++
        .register writeThenListen.2.1 (.all 1) ::
          writeThenListen.2.2)).Live [⟨"v"⟩] now ∧
        Registration.all 1 ∈ now.registrations :=
    ⟨_, ⟨_, _, List.mem_singleton_self _, List.mem_singleton_self _⟩,
      List.mem_singleton_self _⟩
  obtain ⟨first, firstLive, firstAttached⟩ := joined
  obtain ⟨now, live, attached⟩ := final
  exact ⟨first, now, firstLive, live,
    mirror_agrees_iff _ _ _ _ (.all 1) validBefore validLater onceBefore
      onceLater wants firstLive firstAttached live attached⟩

/-- The child that was written before the listener came is never announced, although the view
shows it and is complete. -/
theorem mirror_misses_written_child :
    let (before, query, later) := writeThenListen
    let start := (create { session := "" }).after before
    let events := told 1
      (start.raised (.register query (.all 1) :: later))
    ∃ now,
      (start.after (.register query (.all 1) :: later)).Live query.path
          now ∧
        Registration.all 1 ∈ now.registrations ∧
        now.caches.visible.complete = true ∧
        Node.sameAll (Event.mirror events)
          now.caches.visible.node.children = false :=
  ⟨_, ⟨_, _, List.mem_singleton_self _, List.mem_singleton_self _⟩,
    List.mem_singleton_self _, rfl, by decide +kernel⟩

end Engine

end Replica
