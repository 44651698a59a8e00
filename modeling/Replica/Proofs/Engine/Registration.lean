import Replica.Proofs.Engine.Fresh

/-!
# The first listener of a query

What a query without a view reports is computed on the spot: the data of the server from whoever
holds it, the pending writes over it, and the filter over both. A new view seeds its caches in
another way, from what is known so far, complete or not. Both come to the same: the first listener
for values is told what the query would have reported, and nothing else changes.
-/

namespace Replica

/-- The event that tells a listener the whole value. -/
def Event.ofValue (path : Path) (listener : ListenerId) (node : Node) : Event where
  kind := .value
  listener := listener
  path := path
  key? := none
  node := node
  previous? := none

namespace Change

variable {path : Path} {index : Index} {snap : Node} {listener : ListenerId}

private theorem events_value_of_ne
    {change : Change} (other : change.kind ≠ .value) :
    change.events path index snap [⟨listener, [.value]⟩] = [] := by
  have unwanted :
      Registration.wants ⟨listener, [.value]⟩ change.kind = false := by
    simpa [Registration.wants] using other
  simp [events, unwanted]

/-- A listener for values is told nothing of the changes of other kinds. -/
theorem flatMap_events_value
    {kind : ChangeKind} (other : kind ≠ .value) (changes : List Change) :
    (((changes.filter (·.kind == kind)).mergeSort (atMost index)).flatMap
      (events path index snap [⟨listener, [.value]⟩])) = [] := by
  rw [List.flatMap_eq_nil_iff]
  intro change member
  rw [List.mem_mergeSort, List.mem_filter, beq_iff_eq] at member
  exact events_value_of_ne (member.2 ▸ other)

end Change

namespace View

/-- A listener for values learns the complete visible data as one event. -/
theorem initialEvents_value (view : View) (listener : ListenerId) :
    view.initialEvents ⟨listener, [.value]⟩ =
      (view.caches.visible.complete?.map
        (Event.ofValue view.query.path listener)).toList := by
  unfold initialEvents
  cases view.caches.visible.complete? with
  | none => rfl
  | some snap =>
      let added : List Change :=
        snap.children.map fun entry => .added entry.1 entry.2
      have told : (added ++ [Change.value snap]).filter (!·.isVoid) =
          added ++ [Change.value snap] := by
        refine List.filter_eq_self.mpr fun change member => ?_
        rcases List.mem_append.mp member with isAdded | isValue
        · obtain ⟨entry, _, rfl⟩ := List.mem_map.mp isAdded
          rfl
        · rw [List.mem_singleton.mp isValue]
          rfl
      have moves (index : Index) : (added ++ [Change.value snap]).filterMap
          (Change.move? index) = [] := by
        simp [added, Change.move?]
      have values : (added ++ [Change.value snap]).filter
          (·.kind == .value) = [Change.value snap] := by
        have none : added.filter (·.kind == .value) = [] :=
          List.filter_eq_nil_iff.mpr fun change member => by
            obtain ⟨entry, _, rfl⟩ := List.mem_map.mp member
            exact Bool.false_ne_true
        rw [List.filter_append, none]
        rfl
      change Event.ofChanges _ _ (added ++ [Change.value snap]) _ _ = _
      rw [Event.ofChanges, Change.arrange, told, moves, List.append_nil,
        ChangeKind.all]
      simp only [List.flatMap_cons, List.flatMap_nil, List.flatMap_append,
        values, Change.flatMap_events_value, ne_eq, reduceCtorEq,
        not_false_eq_true, List.nil_append, List.append_nil,
        List.mergeSort_singleton]
      rfl

/-- A new view shows what its query would have reported: nothing, as long as neither the data of the
server nor a write determines the location, and else the filtered node with the pending writes
over it. -/
theorem complete?_visible_create
    {pending : Pending} (sound : pending.Sound) (query : Query)
    (sites : Sites) :
    (create query (sites.serverCache query.path)
        (pending.at query.path)).caches.visible.complete? =
      (pending.node? query.path (sites.serverNode? query.path false)
        false).map query.selection.filter.select := by
  let server := sites.serverCache query.path
  have vantageSound : (pending.at query.path).pending.Sound := sound
  have answer : sites.serverNode? query.path false = server.complete? := by
    dsimp only [server, Sites.serverCache]
    cases sites.serverNode? query.path false <;> rfl
  have isComplete : (create query server
      (pending.at query.path)).caches.visible.complete =
        (server.complete || (pending.overlay.node? query.path).isSome) := by
    have shadow := Vantage.shadow?_nil (pending.at query.path)
    change (server.complete || _) = _
    rw [shadow]
    rfl
  change (create query server _).caches.visible.complete? = _
  rw [answer, Pending.node?_eq sound, Cache.isSome_complete?]
  cases known :
      (server.complete || (pending.overlay.node? query.path).isSome) with
  | false =>
      rw [known] at isComplete
      rw [Cache.complete?, isComplete]
      rfl
  | true =>
      rw [known] at isComplete
      rw [Cache.complete?_of_complete isComplete, if_pos rfl,
        Pending.laidOver_complete? sound known]
      change some (query.selection.filter.select
        (Caches.visibleNode server (pending.at query.path))) = _
      rw [Caches.visibleNode_of_known vantageSound]
      · rfl
      · rw [Vantage.shadow?_nil]
        exact known

end View

namespace Engine

/-- A listener of a sensible query without a view gets a new one. -/
theorem register_of_absent
    {engine : Engine} {query : Query}
    (sensible : query.selection.validate = .ok ())
    (absent : engine.sites.view? query = none)
    (registration : Registration) :
    let view := View.create query (engine.sites.serverCache query.path)
      (engine.pending.at query.path)
    let reply := engine.register query registration
    reply.result = .ok (view.initialEvents registration) ∧
      reply.engine.pending = engine.pending ∧
      reply.engine.sites = engine.sites.place query.path query.identifier
        (view.joinedBy registration) := by
  have missing : Sorted.find? query.identifier
      ((Sorted.find? query.path engine.sites).getD []) = none := by
    rw [← Sites.lookup?_eq_find?]
    exact absent
  dsimp only
  unfold register
  rw [sensible]
  dsimp only [Site.register]
  rw [missing]
  exact ⟨rfl, rfl, rfl⟩

/-- In every state that a run reaches, the first listener for values of a sensible query is told
what the query would have reported, as one event, or nothing if that is not known. The query then
reports the same through its view, and neither the pending writes nor any other view change. -/
theorem register_first_value
    (config : Config) (calls : List Call)
    (valid : ∀ call ∈ calls, call.Valid) (query : Query)
    (sensible : query.selection.validate = .ok ())
    (absent : ((create config).after calls).sites.view? query = none)
    (listener : ListenerId) :
    let engine := (create config).after calls
    let reply := engine.register query ⟨listener, [.value]⟩
    reply.result = .ok ((engine.latest? query).map
        (Event.ofValue query.path listener)).toList ∧
      reply.engine.latest? query = engine.latest? query ∧
      reply.engine.pending = engine.pending ∧
      ∀ path identifier,
        (path ≠ query.path ∨ identifier ≠ query.identifier) →
        reply.engine.sites.lookup? path identifier =
          engine.sites.lookup? path identifier := by
  intro engine reply
  have sound : engine.Sound := (Sound.create config).after valid
  let view : View := .create query (engine.sites.serverCache query.path)
    (engine.pending.at query.path)
  let joined := view.joinedBy ⟨listener, [.value]⟩
  have reported : view.caches.visible.complete? = engine.latest? query := by
    rw [latest?, absent]
    exact View.complete?_visible_create sound.pending query engine.sites
  obtain ⟨told, pending, sites⟩ :=
    register_of_absent sensible absent ⟨listener, [.value]⟩
  refine ⟨?_, ?_, pending, ?_⟩
  · rw [told, View.initialEvents_value, reported]
    rfl
  · have found : reply.engine.sites.view? query = some joined := by
      rw [sites]
      exact Sites.lookup?_place_self
    rw [← reported, latest?, found]
    rfl
  · intro path identifier other
    rw [sites]
    exact Sites.lookup?_place_of_ne other

/-- Data of the server at the root, and a local write below a child of it. -/
def writeBelowData : List Call :=
  [.register { path := [] } (.all 1),
    .serverOverwrite []
      (.branch [(⟨"v"⟩, .branch [(⟨"a"⟩, .ofScalar (.bool true))] none)]
        none),
    .userOverwrite [⟨"v"⟩, ⟨"b"⟩] (.ofScalar (.bool false)) 1 true]

theorem register_first_value_in_range :
    let engine := (create { session := "" }).after writeBelowData
    let query : Query :=
      { path := [⟨"v"⟩]
        selection :=
          { index := .key, lower? := some ⟨.ofScalar (.text "b"), none⟩ } }
    let reply := engine.register query ⟨2, [.value]⟩
    (engine.latest? query).map (·.children.map (·.1)) = some [⟨"b"⟩] ∧
      query.selection.validate = .ok () ∧
      engine.sites.view? query = none ∧
      reply.result = .ok ((engine.latest? query).map
        (Event.ofValue [⟨"v"⟩] 2)).toList ∧
      reply.engine.latest? query = engine.latest? query := by
  intro engine query reply
  have valid : ∀ call ∈ writeBelowData, call.Valid := by
    have canonical : (Node.branch
        [(⟨"v"⟩, .branch [(⟨"a"⟩, .ofScalar (.bool true))] none)]
          none).Canonical :=
      Node.Canonical.empty.setDescendant
        (Node.Canonical.ofScalar (.bool true)) [⟨"v"⟩, ⟨"a"⟩]
    simp [writeBelowData, Call.Valid, Node.Canonical.ofScalar, canonical]
  have absent : engine.sites.view? query = none := rfl
  obtain ⟨told, reported, _⟩ :=
    register_first_value { session := "" } writeBelowData valid query rfl
      absent 2
  exact ⟨by decide +kernel, rfl, absent, told, reported⟩

end Engine

end Replica
