import Replica.Proofs.Engine.Route

/-!
# Calls and runs

A run of an engine is a list of calls. A call returns the events that it raises and the engine
after it; a call that fails raises none.
-/

namespace Replica

inductive Call where
  | userOverwrite (path : Path) (node : Node) (id : WriteId)
      (visible : Bool)
  | userMerge (path : Path) (nodes : Overlay) (id : WriteId)
  | acknowledge (id : WriteId) (rejected : Bool)
  | serverOverwrite (path : Path) (node : Node)
  | serverMerge (path : Path) (nodes : Overlay)
  | listenComplete (path : Path)
  | register (query : Query) (registration : Registration)
  | unregister (query : Query) (listener : ListenerId)
  | removeListener (listener : ListenerId)
  | revoke (path : Path)

namespace Call

/-- The nodes of a call are canonical and its overlays valid. -/
def Valid : Call → Prop
  | .userOverwrite _ node _ _ => node.Canonical
  | .userMerge _ nodes _ => nodes.Valid
  | .serverOverwrite _ node => node.Canonical
  | .serverMerge _ nodes => nodes.Valid
  | _ => True

/-- The priority key does not occur in the location of a query that is listened to. -/
def QueriesData : Call → Prop
  | .register query _ => query.path.Unreserved
  | _ => True

/-- The priority key occurs at most at the end of the locations that a call writes. -/
def Writable : Call → Prop
  | .userOverwrite path _ _ _ => path.Writable
  | .userMerge path nodes _ =>
      ∀ write ∈ nodes.writesBelow path, write.1.Writable
  | .serverOverwrite path _ => path.Writable
  | .serverMerge path nodes =>
      ∀ write ∈ nodes.writesBelow path, write.1.Writable
  | _ => True

def write? : Call → Option Write
  | .userOverwrite path node id visible =>
      some ⟨id, path, .overwrite node, visible⟩
  | .userMerge path nodes id => some ⟨id, path, .merge nodes, true⟩
  | _ => none

def completes : Call → Bool
  | .listenComplete _ => true
  | _ => false

/-- Whether a call is about listeners. -/
def listens : Call → Bool
  | .register _ _ => true
  | .unregister _ _ => true
  | .removeListener _ => true
  | .revoke _ => true
  | _ => false

def Registers (listener : ListenerId) : Call → Prop
  | .register _ registration => registration.id = listener
  | _ => False

end Call

def Reply.outcome (reply : Reply (List Event)) : List Event × Engine :=
  match reply.result with
  | .ok events => (events, reply.engine)
  | .error _ => ([], reply.engine)

@[simp]
theorem Reply.engine_outcome (reply : Reply (List Event)) :
    reply.outcome.2 = reply.engine := by
  unfold outcome
  cases reply.result with
  | ok events => rfl
  | error failure => rfl

namespace Engine

def perform (engine : Engine) : Call → List Event × Engine
  | .userOverwrite path node id visible =>
      (engine.userOverwrite path node id visible).outcome
  | .userMerge path nodes id => (engine.userMerge path nodes id).outcome
  | .acknowledge id rejected => (engine.acknowledge id rejected).outcome
  | .serverOverwrite path node => (engine.serverOverwrite path node).outcome
  | .serverMerge path nodes => (engine.serverMerge path nodes).outcome
  | .listenComplete path => (engine.listenComplete path).outcome
  | .register query registration =>
      (engine.register query registration).outcome
  | .unregister query listener =>
      ([], (engine.unregister query listener).2)
  | .removeListener listener => ([], (engine.removeListener listener).2)
  | .revoke path => ([], (engine.revoke path).2)

def after (engine : Engine) (calls : List Call) : Engine :=
  calls.foldl (fun current call => (current.perform call).2) engine

/-- The events that a run raises, in the order of delivery. -/
def raised : Engine → List Call → List Event
  | _, [] => []
  | engine, call :: rest =>
      (engine.perform call).1 ++ raised (engine.perform call).2 rest

@[simp]
theorem after_append (engine : Engine) (first second : List Call) :
    engine.after (first ++ second) = (engine.after first).after second :=
  List.foldl_append

/-- The single nodes that a call puts in place in the data of the server. -/
def serverWrites (engine : Engine) : Call → List (Path × Node)
  | .serverOverwrite path node => [(path, node)]
  | .serverMerge path nodes => nodes.writesBelow path
  | .acknowledge id false =>
      ((engine.pending.writes.find? (·.id == id)).map Write.writes).getD []
  | _ => []

structure Sound (engine : Engine) : Prop where
  pending : engine.pending.Sound
  sites : engine.sites.Sound

theorem Sound.create (config : Config) : Sound (create config) where
  pending := ⟨fun _ member => absurd member List.not_mem_nil, rfl⟩
  sites :=
    ⟨List.Pairwise.nil, fun _ member => absurd member List.not_mem_nil⟩

end Engine

namespace Sites

def lookup? (sites : Sites) (path : Path) (identifier : String) :
    Option View :=
  (Sorted.find? path sites).bind (Sorted.find? identifier)

theorem lookup?_eq_some_iff
    {sites : Sites} {path : Path} {identifier : String} {view : View} :
    sites.lookup? path identifier = some view ↔
      ∃ site, Sorted.find? path sites = some site ∧
        Sorted.find? identifier site = some view :=
  Option.bind_eq_some_iff

theorem Sound.view
    {sites : Sites} (sound : sites.Sound) {path : Path}
    {identifier : String} {view : View}
    (found : sites.lookup? path identifier = some view) :
    view.Sound path := by
  obtain ⟨site, siteFound, viewFound⟩ := lookup?_eq_some_iff.mp found
  exact (sound.site siteFound).sound _
    (Sorted.mem_of_find?_eq_some viewFound)

/-- The views of all sites are those that can be looked up. -/
theorem Sound.lookup?_of_mem
    {sites : Sites} (sound : sites.Sound) {path : Path} {site : Site}
    (siteMember : (path, site) ∈ sites) {identifier : String} {view : View}
    (viewMember : (identifier, view) ∈ site) :
    sites.lookup? path identifier = some view := by
  have siteFound := Sorted.find?_of_mem sound.ascending siteMember
  exact lookup?_eq_some_iff.mpr ⟨site, siteFound,
    Sorted.find?_of_mem (sound.site siteFound).ascending viewMember⟩

/-- A view that is live after routing has not been reached and is as before, or it took the
operation. -/
theorem Delivered.view
    {pending : Pending} {operation : Operation} {sites next : Sites}
    {events : List Event}
    (delivered : Delivered pending operation sites next events)
    (sound : sites.Sound) {path : Path} {identifier : String} {view : View}
    (found : next.lookup? path identifier = some view) :
    (reaching? operation path = none ∧
        sites.lookup? path identifier = some view) ∨
      ∃ relative site old, ∃ ancestor? : Option Node,
        reaching? operation path = some relative ∧
          Sorted.find? path sites = some site ∧
          Sorted.find? identifier site = some old ∧
          (∀ ancestor ∈ ancestor?, ancestor.Canonical) ∧
          view = old.after relative (pending.at path) ancestor? ∧
          ∀ event : Event, event.path = path →
            (event ∈ events ↔
              site.Tells relative (pending.at path) ancestor? event) := by
  obtain ⟨site, siteFound, viewFound⟩ := lookup?_eq_some_iff.mp found
  cases reaches : reaching? operation path with
  | none =>
      have still := (delivered.missed path (Or.inl reaches)).1
      exact Or.inl ⟨rfl, lookup?_eq_some_iff.mpr
        ⟨site, still ▸ siteFound, viewFound⟩⟩
  | some relative =>
      cases oldFound : Sorted.find? path sites with
      | none =>
          have absent := (delivered.missed path (Or.inr oldFound)).1
          rw [siteFound, oldFound] at absent
          cases absent
      | some oldSite =>
          obtain ⟨ancestor?, canonical, nextFound, told⟩ :=
            delivered.reached path relative oldSite reaches oldFound
          rw [siteFound] at nextFound
          cases nextFound
          obtain ⟨⟨name, old⟩, member, equality⟩ :=
            List.mem_map.mp (Sorted.mem_of_find?_eq_some viewFound)
          cases equality
          exact Or.inr ⟨relative, oldSite, old, ancestor?, rfl, rfl,
            Sorted.find?_of_mem (sound.site oldFound).ascending member,
            canonical, rfl, told⟩

/-- What is told comes from a location that the operation reaches. -/
theorem Delivered.tells
    {pending : Pending} {operation : Operation} {sites next : Sites}
    {events : List Event}
    (delivered : Delivered pending operation sites next events)
    {event : Event} (member : event ∈ events) :
    ∃ relative site, ∃ ancestor? : Option Node,
      reaching? operation event.path = some relative ∧
        Sorted.find? event.path sites = some site ∧
        (∀ ancestor ∈ ancestor?, ancestor.Canonical) ∧
        site.Tells relative (pending.at event.path) ancestor? event := by
  cases reaches : reaching? operation event.path with
  | none =>
      have missed := (delivered.missed event.path (Or.inl reaches)).2
      exact absurd rfl (missed event member)
  | some relative =>
      cases found : Sorted.find? event.path sites with
      | none =>
          have missed := (delivered.missed event.path (Or.inr found)).2
          exact absurd rfl (missed event member)
      | some site =>
          obtain ⟨ancestor?, canonical, _, told⟩ :=
            delivered.reached event.path relative site reaches found
          exact ⟨relative, site, ancestor?, rfl, rfl, canonical,
            (told event rfl).mp member⟩

end Sites

namespace Engine

/-- A view that the engine holds for a query of a location. -/
def Live (engine : Engine) (path : Path) (view : View) : Prop :=
  ∃ site identifier,
    (path, site) ∈ engine.sites ∧ (identifier, view) ∈ site

theorem Sound.lookup?_of_live
    {engine : Engine} (sound : engine.Sound) {path : Path} {view : View}
    (live : engine.Live path view) :
    ∃ identifier, engine.sites.lookup? path identifier = some view := by
  obtain ⟨site, identifier, siteMember, viewMember⟩ := live
  exact ⟨identifier, sound.sites.lookup?_of_mem siteMember viewMember⟩

theorem live_of_view?
    {engine : Engine} {query : Query} {view : View}
    (found : engine.sites.view? query = some view) :
    engine.Live query.path view := by
  obtain ⟨site, siteFound, viewFound⟩ := Option.bind_eq_some_iff.mp found
  exact ⟨site, _, Sorted.mem_of_find?_eq_some siteFound,
    Sorted.mem_of_find?_eq_some viewFound⟩

end Engine

namespace Sites

/-! ## Narrowing -/

/-- No view is new, and each has the caches that it had and no new listener. -/
structure Narrows (sites next : Sites) : Prop where
  sound : next.Sound
  locations : ∀ entry ∈ next, ∃ old ∈ sites, old.1 = entry.1
  views : ∀ path identifier view,
    next.lookup? path identifier = some view →
    ∃ old, sites.lookup? path identifier = some old ∧
      view.query = old.query ∧ view.caches = old.caches ∧
        view.registrations ⊆ old.registrations

theorem Narrows.refl {sites : Sites} (sound : sites.Sound) :
    Narrows sites sites :=
  ⟨sound, fun entry member => ⟨entry, member, rfl⟩, fun _ _ view found =>
    ⟨view, found, rfl, rfl, List.Subset.refl _⟩⟩

theorem Narrows.trans
    {first second third : Sites} (before : Narrows first second)
    (after : Narrows second third) : Narrows first third := by
  refine ⟨after.sound, fun entry member => ?_,
    fun path identifier view found => ?_⟩
  · obtain ⟨middle, middleMember, same⟩ := after.locations entry member
    obtain ⟨old, oldMember, oldSame⟩ := before.locations middle middleMember
    exact ⟨old, oldMember, oldSame.trans same⟩
  · obtain ⟨middle, middleFound, query, caches, registrations⟩ :=
      after.views path identifier view found
    obtain ⟨old, oldFound, oldQuery, oldCaches, oldRegistrations⟩ :=
      before.views path identifier middle middleFound
    exact ⟨old, oldFound, query.trans oldQuery, caches.trans oldCaches,
      List.Subset.trans registrations oldRegistrations⟩

end Sites

namespace Site

structure Narrows (site next : Site) : Prop where
  keys : (next.map (·.1)).Sublist (site.map (·.1))
  views : ∀ entry ∈ next, ∃ old, (entry.1, old) ∈ site ∧
    entry.2.query = old.query ∧ entry.2.caches = old.caches ∧
      entry.2.registrations ⊆ old.registrations

private theorem narrows_unregister
    (identifier? : Option String) (listener : ListenerId) (site : Site) :
    Narrows site (unregister identifier? listener site).2.2 := by
  induction site with
  | nil =>
      exact ⟨List.Sublist.refl _, fun _ member =>
        absurd member List.not_mem_nil⟩
  | cons entry rest inductionHypothesis =>
      obtain ⟨identifier, view⟩ := entry
      have dropped : Narrows ((identifier, view) :: rest)
          (unregister identifier? listener rest).2.2 := by
        refine ⟨inductionHypothesis.keys.cons _, fun other member => ?_⟩
        obtain ⟨old, oldMember, same⟩ :=
          inductionHypothesis.views other member
        exact ⟨old, List.mem_cons_of_mem _ oldMember, same⟩
      have retained (kept : View) (query : kept.query = view.query)
          (caches : kept.caches = view.caches)
          (registrations : kept.registrations ⊆ view.registrations) :
          Narrows ((identifier, view) :: rest)
            ((identifier, kept) ::
              (unregister identifier? listener rest).2.2) := by
        refine ⟨inductionHypothesis.keys.cons_cons identifier,
          fun other member => ?_⟩
        rcases List.mem_cons.mp member with rfl | later
        · exact ⟨view, List.mem_cons_self, query, caches, registrations⟩
        · exact dropped.views other later
      have detached :
          (view.unregister listener).2.query = view.query ∧
            (view.unregister listener).2.caches = view.caches ∧
              (view.unregister listener).2.registrations ⊆
                view.registrations :=
        ⟨rfl, rfl, List.filter_sublist.subset⟩
      unfold unregister
      dsimp only
      split
      · split
        · rename_i gone
          rw [gone] at detached
          split
          · exact dropped
          · exact retained _ detached.1 detached.2.1 detached.2.2
        · rename_i gone
          rw [gone] at detached
          exact retained _ detached.1 detached.2.1 detached.2.2
      · exact retained view rfl rfl (List.Subset.refl _)

private theorem Narrows.sound
    {site next : Site} (narrows : Narrows site next)
    {path : Path} (sound : site.Sound path) : next.Sound path := by
  constructor
  · have keys : (site.map (·.1)).Pairwise fun a b => compare a b = .lt :=
      List.pairwise_map.mpr sound.ascending
    exact List.pairwise_map.mp (keys.sublist narrows.keys)
  · intro entry member
    obtain ⟨old, oldMember, query, caches, _⟩ :=
      narrows.views entry member
    have oldSound := sound.sound _ oldMember
    refine ⟨?_, query ▸ oldSound.located⟩
    rw [caches]
    exact oldSound.canonical

end Site

namespace Sites

private theorem narrows_insert
    {sites : Sites} (sound : sites.Sound) {path : Path} {site next : Site}
    (found : Sorted.find? path sites = some site)
    (narrows : Site.Narrows site next) :
    Narrows sites (Sorted.insert path next sites) := by
  have siteSound := sound.site found
  refine ⟨sound.insert (narrows.sound siteSound), ?_, ?_⟩
  · intro entry member
    rcases Sorted.mem_of_mem_insert member with rfl | old
    · exact ⟨_, Sorted.mem_of_find?_eq_some found, rfl⟩
    · exact ⟨entry, old, rfl⟩
  · intro other identifier view isFound
    obtain ⟨otherSite, otherFound, viewFound⟩ :=
      lookup?_eq_some_iff.mp isFound
    by_cases here : other = path
    · subst here
      rw [Sorted.find?_insert_self] at otherFound
      cases otherFound
      obtain ⟨old, oldMember, same⟩ :=
        narrows.views _ (Sorted.mem_of_find?_eq_some viewFound)
      exact ⟨old, lookup?_eq_some_iff.mpr ⟨site, found,
        Sorted.find?_of_mem siteSound.ascending oldMember⟩, same⟩
    · rw [Sorted.find?_insert_of_ne next here] at otherFound
      exact ⟨view, lookup?_eq_some_iff.mpr ⟨otherSite, otherFound, viewFound⟩,
        rfl, rfl, List.Subset.refl _⟩

theorem narrows_sublist
    {sites next : Sites} (sound : sites.Sound)
    (sublist : next.Sublist sites) : Narrows sites next := by
  have ascending : Sorted.Ascending next :=
    List.Pairwise.sublist sublist sound.ascending
  refine ⟨⟨ascending, fun entry member =>
    sound.sound entry (sublist.subset member)⟩, ?_, ?_⟩
  · exact fun entry member => ⟨entry, sublist.subset member, rfl⟩
  · intro path identifier view found
    obtain ⟨site, siteFound, viewFound⟩ := lookup?_eq_some_iff.mp found
    have member := sublist.subset (Sorted.mem_of_find?_eq_some siteFound)
    refine ⟨view, lookup?_eq_some_iff.mpr ⟨site,
      Sorted.find?_of_mem sound.ascending member, viewFound⟩, rfl, rfl,
      List.Subset.refl _⟩

theorem erase_sublist (path : Path) (sites : Sites) :
    (Sorted.erase path sites).Sublist sites := by
  induction sites with
  | nil => exact List.Sublist.refl _
  | cons entry rest inductionHypothesis =>
      unfold Sorted.erase
      split
      · exact List.Sublist.refl _
      · exact List.sublist_cons_self entry rest
      · exact inductionHypothesis.cons_cons entry

end Sites

namespace Engine

@[simp]
theorem pending_detach
    (engine : Engine) (path : Path) (identifier? : Option String)
    (listener : ListenerId) :
    (engine.detach path identifier? listener).2.pending =
      engine.pending := by
  unfold detach
  cases Sorted.find? path engine.sites with
  | none => rfl
  | some site => rfl

private theorem config_detach
    (engine : Engine) (path : Path) (identifier? : Option String)
    (listener : ListenerId) :
    (engine.detach path identifier? listener).2.config =
      engine.config := by
  unfold detach
  cases Sorted.find? path engine.sites with
  | none => rfl
  | some site => rfl

theorem narrows_detach
    {engine : Engine} (sound : engine.sites.Sound) (path : Path)
    (identifier? : Option String) (listener : ListenerId) :
    Sites.Narrows engine.sites
      (engine.detach path identifier? listener).2.sites := by
  unfold detach
  cases found : Sorted.find? path engine.sites with
  | none => exact Sites.Narrows.refl sound
  | some site =>
      change Sites.Narrows engine.sites
        (if (Site.unregister identifier? listener site).2.2.isEmpty then
          Sorted.erase path engine.sites
        else Sorted.insert path
          (Site.unregister identifier? listener site).2.2 engine.sites)
      split
      · exact Sites.narrows_sublist sound (Sites.erase_sublist _ _)
      · exact Sites.narrows_insert sound found
          (Site.narrows_unregister identifier? listener site)

theorem removeListener_narrows
    {engine : Engine} (sound : engine.sites.Sound)
    (listener : ListenerId) :
    (engine.removeListener listener).2.pending = engine.pending ∧
      Sites.Narrows engine.sites
        (engine.removeListener listener).2.sites := by
  refine List.foldlRecOn
    (motive := fun reached : Bool × Engine =>
      reached.2.pending = engine.pending ∧
        Sites.Narrows engine.sites reached.2.sites)
    _ _ ⟨rfl, Sites.Narrows.refl sound⟩ ?_
  intro reached holds path _
  have further := narrows_detach holds.2.sound path none listener
  exact ⟨(pending_detach _ _ _ _).trans holds.1, holds.2.trans further⟩

theorem sites_revoke (engine : Engine) (path : Path) :
    (engine.revoke path).2.sites =
      engine.sites.filter fun entry => !Path.contains path entry.1 := by
  unfold revoke
  rw [List.partition_eq_filter_filter]
  rfl

theorem narrows_revoke
    {engine : Engine} (sound : engine.sites.Sound) (path : Path) :
    Sites.Narrows engine.sites (engine.revoke path).2.sites := by
  rw [sites_revoke]
  exact Sites.narrows_sublist sound List.filter_sublist

/-- A call about listeners leaves the settings and the pending writes alone. -/
theorem kept_of_listens
    {engine : Engine} (sound : engine.sites.Sound) {call : Call}
    (listens : call.listens = true) :
    (engine.perform call).2.pending = engine.pending ∧
      (engine.perform call).2.config = engine.config := by
  cases call with
  | register query registration =>
      rw [perform, Reply.engine_outcome, register]
      cases query.selection.validate with
      | error _ => exact ⟨rfl, rfl⟩
      | ok _ =>
          dsimp only
          split
          · exact ⟨rfl, rfl⟩
          · exact ⟨rfl, rfl⟩
  | unregister query listener =>
      exact ⟨pending_detach _ _ _ _, config_detach _ _ _ _⟩
  | removeListener listener =>
      refine ⟨(removeListener_narrows sound listener).1, ?_⟩
      refine List.foldlRecOn
        (motive := fun reached : Bool × Engine =>
          reached.2.config = engine.config) _ _ rfl ?_
      intro reached holds path _
      exact (config_detach reached.2 path none listener).trans holds
  | revoke path => exact ⟨rfl, rfl⟩
  | _ => cases listens

end Engine

end Replica
