import Replica.Site
import Replica.Proofs.View.Caches

/-!
# Views and sites

A view with canonical caches takes every valid operation. What listeners are told is made from
the net changes of the children and of the whole value.
-/

namespace Replica

namespace View

/-- The view stands at the location of its query, and its snapshots are canonical. -/
structure Sound (path : Path) (view : View) : Prop where
  canonical : view.caches.Canonical
  located : view.query.path = path

def after (view : View) (operation : Operation) (vantage : Vantage)
    (ancestor? : Option Node) : View :=
  { view with
    caches := view.caches.after view.filter operation vantage ancestor? }

/-- What the listeners of a view are told when its caches change as a ledger accounts for. -/
def tidings (view : View) (caches : Caches) (ledger : Ledger) : List Event :=
  Event.ofChanges view.query.path view.query.selection.index
    (ledger.changes ++ Change.ofValue view.caches.visible caches.visible)
    caches.visible.node view.registrations

variable {view : View} {path : Path}

/-- A view takes every valid operation. -/
theorem Sound.apply_ok
    (sound : view.Sound path)
    {vantage : Vantage} (pendingSound : vantage.pending.Sound)
    {ancestor? : Option Node}
    (ancestorCanonical : ∀ ancestor ∈ ancestor?, ancestor.Canonical)
    {operation : Operation} (valid : operation.Valid) :
    ∃ ledger,
      view.apply operation vantage ancestor? =
        .ok (view.tidings (view.after operation vantage ancestor?).caches
          ledger, view.after operation vantage ancestor?) ∧
      Caches.Accounts view.caches
        (view.after operation vantage ancestor?).caches ledger := by
  obtain ⟨ledger, applied, accounts⟩ :=
    Caches.apply_ok pendingSound sound.canonical ancestorCanonical valid
      view.filter
  refine ⟨ledger, ?_, accounts⟩
  unfold View.apply
  rw [applied]
  rfl

theorem Sound.after
    (sound : view.Sound path)
    {vantage : Vantage} (pendingSound : vantage.pending.Sound)
    {ancestor? : Option Node}
    (ancestorCanonical : ∀ ancestor ∈ ancestor?, ancestor.Canonical)
    {operation : Operation} (valid : operation.Valid) :
    (view.after operation vantage ancestor?).Sound path := by
  obtain ⟨_, _, accounts⟩ :=
    sound.apply_ok pendingSound ancestorCanonical valid
  exact ⟨accounts.canonical, sound.located⟩

theorem Sound.create
    {query : Query} {server : Cache}
    (serverCanonical : server.node.Canonical)
    {vantage : Vantage} (pendingSound : vantage.pending.Sound) :
    (create query server vantage).Sound query.path where
  canonical :=
    { visible :=
        Filter.canonical_select
          (Caches.canonical_visibleNode pendingSound serverCanonical) _
      server := Filter.canonical_select serverCanonical _ }
  located := rfl

/-- The server's data that a view can answer with is canonical. -/
theorem Sound.canonical_serverNode?
    (sound : view.Sound path) {below : Path} {node : Node}
    (answer : view.serverNode? below = some node) :
    node.Canonical := by
  unfold serverNode? at answer
  cases complete : view.caches.server.complete with
  | false =>
      rw [Cache.complete?_of_incomplete complete] at answer
      cases answer
  | true =>
      rw [Cache.complete?_of_complete complete] at answer
      dsimp only at answer
      split at answer
      · cases answer
        exact sound.canonical.server.descendant below
      · cases answer

/-! ## Events -/

/-- An event is about the location of the query, for a listener of the view. -/
theorem mem_ofChanges
    {index : Index} {changes : List Change} {snap : Node}
    {registrations : List Registration} {event : Event}
    (member : event ∈
      Event.ofChanges path index changes snap registrations) :
    event.path = path ∧
      ∃ registration ∈ registrations, event.listener = registration.id := by
  obtain ⟨change, _, told⟩ := List.mem_flatMap.mp member
  obtain ⟨registration, wanting, rfl⟩ := List.mem_map.mp told
  exact ⟨rfl, registration, (List.mem_filter.mp wanting).1, rfl⟩

theorem Sound.mem_tidings
    (sound : view.Sound path) {caches : Caches} {ledger : Ledger}
    {event : Event} (member : event ∈ view.tidings caches ledger) :
    event.path = path ∧
      ∃ registration ∈ view.registrations,
        event.listener = registration.id := by
  obtain ⟨located, listening⟩ := mem_ofChanges member
  exact ⟨located.trans sound.located, listening⟩

end View

namespace Site

/-- The views are in the order of their identifiers, and each of them is sound. -/
structure Sound (path : Path) (site : Site) : Prop where
  ascending : Sorted.Ascending site
  sound : ∀ entry ∈ site, entry.2.Sound path

def after (site : Site) (operation : Operation) (vantage : Vantage)
    (ancestor? : Option Node) : Site :=
  site.map fun entry =>
    (entry.1, entry.2.after operation vantage ancestor?)

/-- A view of the site tells an event when it takes an operation. -/
def Tells (site : Site) (operation : Operation) (vantage : Vantage)
    (ancestor? : Option Node) (event : Event) : Prop :=
  ∃ entry ∈ site, ∃ told next,
    entry.2.apply operation vantage ancestor? = .ok (told, next) ∧
      event ∈ told

variable {site : Site} {path : Path}

theorem Sound.canonical_serverNode?
    (sound : site.Sound path) {below : Path} {node : Node}
    (answer : site.serverNode? below = some node) :
    node.Canonical := by
  obtain ⟨entry, member, entryAnswer⟩ :=
    List.exists_of_findSome?_eq_some answer
  exact (sound.sound entry member).canonical_serverNode? entryAnswer

theorem Sound.after
    (sound : site.Sound path)
    {vantage : Vantage} (pendingSound : vantage.pending.Sound)
    {ancestor? : Option Node}
    (ancestorCanonical : ∀ ancestor ∈ ancestor?, ancestor.Canonical)
    {operation : Operation} (valid : operation.Valid) :
    (site.after operation vantage ancestor?).Sound path := by
  constructor
  · exact List.pairwise_map.mpr sound.ascending
  · intro entry member
    obtain ⟨old, oldMember, rfl⟩ := List.mem_map.mp member
    exact (sound.sound old oldMember).after pendingSound ancestorCanonical
      valid

/-- A site takes every valid operation, and returns what its views are told. -/
theorem Sound.apply_ok
    (sound : site.Sound path)
    {vantage : Vantage} (pendingSound : vantage.pending.Sound)
    {ancestor? : Option Node}
    (ancestorCanonical : ∀ ancestor ∈ ancestor?, ancestor.Canonical)
    {operation : Operation} (valid : operation.Valid) :
    ∃ events,
      site.apply operation vantage ancestor? =
        .ok (events, site.after operation vantage ancestor?) ∧
      ∀ event, event ∈ events ↔
        site.Tells operation vantage ancestor? event := by
  have views := sound.sound
  clear sound
  induction site with
  | nil => exact ⟨[], rfl, fun event => by simp [Tells]⟩
  | cons entry rest inductionHypothesis =>
      obtain ⟨first, others⟩ := List.forall_mem_cons.mp views
      obtain ⟨ledger, applied, _⟩ :=
        first.apply_ok pendingSound ancestorCanonical valid
      obtain ⟨events, restApplied, characterized⟩ :=
        inductionHypothesis others
      refine ⟨entry.2.tidings
        (entry.2.after operation vantage ancestor?).caches ledger ++
          events, ?_, ?_⟩
      · change (entry.2.apply operation vantage ancestor? >>= _) = _
        rw [applied]
        change (apply operation vantage ancestor? rest >>= _) = _
        rw [restApplied]
        rfl
      · intro event
        rw [List.mem_append, characterized]
        unfold Tells
        constructor
        · rintro (here | ⟨other, member, told⟩)
          · exact ⟨entry, List.mem_cons_self, _, _, applied, here⟩
          · exact ⟨other, List.mem_cons_of_mem entry member, told⟩
        · rintro ⟨other, member, told, next, otherApplied, isTold⟩
          rcases List.mem_cons.mp member with rfl | later
          · rw [applied] at otherApplied
            cases otherApplied
            exact Or.inl isTold
          · exact Or.inr ⟨other, later, told, next, otherApplied, isTold⟩

/-- What a site tells is what one of its views tells of its changes. -/
theorem Sound.mem_tidings_of_tells
    (sound : site.Sound path)
    {vantage : Vantage} (pendingSound : vantage.pending.Sound)
    {ancestor? : Option Node}
    (ancestorCanonical : ∀ ancestor ∈ ancestor?, ancestor.Canonical)
    {operation : Operation} (valid : operation.Valid) {event : Event}
    (tells : site.Tells operation vantage ancestor? event) :
    ∃ identifier view, Sorted.find? identifier site = some view ∧
      view.Sound path ∧ ∃ ledger,
        view.apply operation vantage ancestor? =
            .ok (view.tidings
              (view.after operation vantage ancestor?).caches ledger,
              view.after operation vantage ancestor?) ∧
          event ∈ view.tidings
            (view.after operation vantage ancestor?).caches ledger := by
  obtain ⟨⟨identifier, view⟩, member, told, next, applied, isTold⟩ := tells
  have viewSound := sound.sound _ member
  obtain ⟨ledger, viewApplied, _⟩ :=
    viewSound.apply_ok pendingSound ancestorCanonical valid
  rw [viewApplied] at applied
  cases applied
  exact ⟨identifier, view, Sorted.find?_of_mem sound.ascending member,
    viewSound, ledger, viewApplied, isTold⟩

theorem Sound.path_of_tells
    (sound : site.Sound path)
    {vantage : Vantage} (pendingSound : vantage.pending.Sound)
    {ancestor? : Option Node}
    (ancestorCanonical : ∀ ancestor ∈ ancestor?, ancestor.Canonical)
    {operation : Operation} (valid : operation.Valid) {event : Event}
    (tells : site.Tells operation vantage ancestor? event) :
    event.path = path := by
  obtain ⟨_, _, _, viewSound, _, _, isTold⟩ :=
    sound.mem_tidings_of_tells pendingSound ancestorCanonical valid tells
  exact (viewSound.mem_tidings isTold).1

end Site

end Replica
