import Replica.Proofs.Engine.Fresh
import Replica.Proofs.View.Leaf

/-!
# What local writes leave behind

Once no write is pending, a view over complete data of the server shows the children of this data,
and its leaf if it is one. At the location of the view itself something may be left behind: a
priority that is no longer there, or is missing, or a leaf where the data has become a branch.
-/

namespace Replica

theorem Scope.Covers.inChild
    {keys : List Key} {writes : List (Path × Node)}
    (covers : Scope.Covers keys writes) :
    ∀ write ∈ writes, write.1.InChild := by
  intro write member
  obtain ⟨key, keyMember, rest, path⟩ := covers.2 write member
  rw [path]
  exact covers.1 key keyMember

namespace View

/-- A view shows the leaves that the pending writes give over its data of the server. Where a
write covers the location across a priority key, nothing is said. -/
def ShowsLeaves (pending : Pending) (view : View) : Prop :=
  pending.overlay.Plain view.query.path →
    pending.ShowsLeaves view.query.path view.caches.visible.node
      view.caches.server.node

private theorem ShowsLeaves.kept
    {old view : View} {pending next : Pending}
    (shows : old.ShowsLeaves pending) (sound : pending.Sound)
    (nextSound : next.Sound) (canonical : old.caches.Canonical)
    (query : view.query = old.query) (caches : view.caches = old.caches)
    {writes : List (Path × Node)}
    (writesCanonical : ∀ write ∈ writes, write.2.Canonical)
    (turns : Overlay.Turns pending.overlay next.overlay writes)
    (unseen : writes.filterMap (Overlay.seenFrom old.query.path) = []) :
    view.ShowsLeaves next := by
  intro nextPlain
  rw [query] at nextPlain
  have outside := Overlay.outside_of_unseen unseen
  have plain :=
    (turns.plain_iff sound.overlay_valid writesCanonical outside).mp
      nextPlain
  have before := shows plain
  have sameData :=
    Pending.laidOver_congr nextSound sound
      (turns.restrict_of_unseen sound.overlay_valid writesCanonical plain
        unseen) (Setoid.refl _) canonical.server canonical.server
  rw [caches, query]
  constructor
  · rw [Node.isLeaf_congr sameData]
    intro leaf
    exact Setoid.trans (before.shown leaf) (Setoid.symm sameData)
  · rw [Node.isLeaf_congr sameData,
      turns.isSome_node? sound.overlay_valid writesCanonical outside]
    exact before.leftover

/-! ## Operations that reach the view -/

theorem select_of_keepsAll
    {view : View} (keepsAll : view.query.selection.keepsAll = true)
    (node : Node) : view.filter.select node = node := by
  rw [filter, Selection.filter_of_keepsAll keepsAll]
  rfl

/-- Where an operation touches everything, everything is computed anew. -/
theorem visible_after_all
    {old : View} {next : Pending} (nextSound : next.Sound)
    {ancestor? : Option Node} {relative : Operation}
    (keepsAll : old.query.selection.keepsAll = true)
    (complete : (Caches.receive old.filter old.caches
      relative).server.complete = true)
    (scope : relative.scope = .all) :
    (old.after relative (next.at old.query.path)
        ancestor?).caches.visible.node =
      next.laidOver old.query.path (Caches.receive old.filter old.caches
        relative).server.node := by
  have known :
      ((Caches.receive old.filter old.caches relative).server.complete ||
        ((next.at old.query.path).shadow? []).isSome) = true :=
    Bool.or_eq_true_iff.mpr (Or.inl complete)
  change Caches.visibleAfter old.filter _ _ _ _ relative.scope = _
  rw [scope]
  change old.filter.select (Caches.visibleNode _ (next.at old.query.path)) =
    _
  rw [select_of_keepsAll keepsAll,
    @Caches.visibleNode_of_known (next.at old.query.path) nextSound _ known]
  rfl

private theorem showsLeaves_after_all
    {old : View} {next : Pending} (nextSound : next.Sound)
    {ancestor? : Option Node} {relative : Operation}
    (keepsAll : old.query.selection.keepsAll = true)
    (complete : (Caches.receive old.filter old.caches
      relative).server.complete = true)
    (scope : relative.scope = .all) :
    (old.after relative (next.at old.query.path) ancestor?).ShowsLeaves
      next := by
  refine fun _ => Pending.showsLeaves_of_equiv ?_
  rw [visible_after_all nextSound keepsAll complete scope]
  exact Setoid.refl _

section

variable {old : View} {pending next : Pending} (fresh : old.Fresh pending)
  (sound : pending.Sound) (nextSound : next.Sound)
  (canonical : old.caches.Canonical)
  {ancestor? : Option Node}
  (ancestorCanonical : ∀ ancestor ∈ ancestor?, ancestor.Canonical)
  {operation relative : Operation}
  (shown : operation.Shows relative old.query.path)
  (valid : operation.Valid)
  (turns : Overlay.Turns pending.overlay next.overlay operation.writes)
  (keepsAll : old.query.selection.keepsAll = true)

include fresh sound nextSound canonical ancestorCanonical shown valid turns
  keepsAll

/-- The children that a view shows after an operation are those of the data at its location. -/
theorem child_after
    (complete : (old.after relative (next.at old.query.path)
      ancestor?).caches.server.complete = true)
    {key : Key} (unreserved : key.isPriority = false) :
    (old.after relative (next.at old.query.path)
        ancestor?).caches.visible.node.child key ≈
      (next.laidOver old.query.path (old.after relative
        (next.at old.query.path) ancestor?).caches.server.node).child
          key := by
  have nextFresh :=
    fresh.after sound nextSound canonical ancestorCanonical shown valid
      turns
  have known := nextFresh.known
  rw [complete, Bool.true_or] at known
  have serverCanonical :=
    Caches.canonical_receive canonical.server shown.valid old.filter
  exact Setoid.trans (nextFresh.children keepsAll known key unreserved)
    (Setoid.symm (Pending.child_laidOver nextSound _ unreserved
      serverCanonical))

/-- An operation that touches only children keeps the leaves right. -/
theorem ShowsLeaves.after_children
    (shows : old.ShowsLeaves pending)
    (complete : old.caches.server.complete = true)
    {keys : List Key} (scope : relative.scope = .children keys) :
    (old.after relative (next.at old.query.path) ancestor?).ShowsLeaves
      next := by
  intro nextPlain
  have outside := outside_of_scope shown scope
  have plain :=
    (turns.plain_iff sound.overlay_valid valid.canonical_of_mem_writes
      outside).mp nextPlain
  have everything := Selection.filter_of_keepsAll keepsAll
  have unfiltered : old.caches.server.filtered = false := by
    rw [fresh.filtered, filter, everything]
    rfl
  have covers := Operation.covers_of_scope scope
  have toldInChild :
      ∀ write ∈ relative.serverWrites, write.1.InChild := by
    intro write member
    exact covers.inChild write
      (Operation.mem_writes_of_mem_serverWrites member)
  have turn :=
    Pending.leafTurns_of_turns sound nextSound turns
      valid.canonical_of_mem_writes plain nextPlain shown.writes
      covers.inChild shown.valid.apart_of_mem_writes
      shown.valid.canonical_of_mem_serverWrites toldInChild
      canonical.server
  have nextComplete :
      (Caches.receive old.filter old.caches
        relative).server.complete = true := by
    rw [Caches.complete_receive_of_children scope]
    exact complete
  have sameChildren (key : Key) (unreserved : key.isPriority = false) :=
    child_after fresh sound nextSound canonical ancestorCanonical shown
      valid turns keepsAll nextComplete unreserved
  have nextNode :
      (Caches.receive old.filter old.caches relative).server.node =
        old.caches.server.node.lay relative.serverWrites := by
    rw [filter, everything]
    exact Caches.node_receive complete unfiltered fun write member =>
      (toldInChild write member).atPriority
  have nextCanonical : (old.after relative (next.at old.query.path)
      ancestor?).caches.visible.node.Canonical :=
    (Sound.after ⟨canonical, rfl⟩ nextSound ancestorCanonical
      shown.valid).canonical.visible
  obtain ⟨computed, unchanged, result⟩ :=
    @Caches.visibleAfter_of_children old.query.selection.index
      (Caches.receive old.filter old.caches relative).server
      (next.at old.query.path) nextSound nextComplete ancestor?
      old.caches.visible.node keys covers.1
  rw [← everything, ← scope] at result
  rw [← nextNode] at turn
  exact Pending.ShowsLeaves.turn (shows plain) turn unchanged nextCanonical result
    sameChildren

end

/-- A new view shows what the pending writes give. -/
theorem showsLeaves_create
    {pending : Pending} (sound : pending.Sound) {query : Query}
    {server : Cache} {view : View} (isQuery : view.query = query)
    (caches : view.caches =
      (create query server (pending.at query.path)).caches)
    (keepsAll : query.selection.keepsAll = true)
    (complete : view.caches.server.complete = true) :
    view.ShowsLeaves pending := by
  subst isQuery
  refine fun _ => Pending.showsLeaves_of_equiv ?_
  rw [caches] at complete ⊢
  have known :
      (server.complete ||
        ((pending.at view.query.path).shadow? []).isSome) = true :=
    Bool.or_eq_true_iff.mpr (Or.inl complete)
  change view.filter.select (Caches.visibleNode server _) ≈
    pending.laidOver view.query.path (view.filter.select server.node)
  rw [select_of_keepsAll keepsAll, select_of_keepsAll keepsAll,
    @Caches.visibleNode_of_known (pending.at view.query.path) sound _ known]
  exact Setoid.refl _

end View

namespace Engine

/-- All live views that keep every child show the leaves over complete data of the server. -/
def ShowsLeaves (engine : Engine) : Prop :=
  ∀ path identifier view,
    engine.sites.lookup? path identifier = some view →
      view.query.selection.keepsAll = true →
        view.caches.server.complete = true →
          view.ShowsLeaves engine.pending

theorem showsLeaves_create (config : Config) :
    (create config).ShowsLeaves := by
  intro path identifier view found
  cases found

variable {engine : Engine}

/-- A call keeps the leaves of all views right. -/
theorem ShowsLeaves.perform
    (shows : engine.ShowsLeaves) (fresh : engine.Fresh)
    (sound : engine.Sound) {call : Call} (valid : call.Valid) :
    (engine.perform call).2.ShowsLeaves := by
  intro path identifier view found keepsAll complete
  have nextSound := sound.perform valid
  cases (course_perform sound valid).origin sound found with
  | kept oldFound query caches canonical turns unseen _ =>
      have oldSound := sound.sites.view oldFound
      obtain rfl := oldSound.located
      rw [query] at keepsAll
      rw [caches] at complete
      exact (shows _ identifier _ oldFound keepsAll complete).kept
        sound.pending nextSound.pending oldSound.canonical query caches
        canonical turns unseen
  | @took old operation relative _ oldFound ancestor shown operationValid
      turns result _ _ =>
      have oldSound := sound.sites.view oldFound
      obtain rfl := oldSound.located
      subst result
      cases scope : relative.scope with
      | all =>
          exact View.showsLeaves_after_all nextSound.pending keepsAll
            complete scope
      | children keys =>
          have wasComplete : old.caches.server.complete = true := by
            rw [← Caches.complete_receive_of_children scope]
            exact complete
          exact View.ShowsLeaves.after_children
            (fresh _ identifier old oldFound) sound.pending
            nextSound.pending oldSound.canonical ancestor shown
            operationValid turns keepsAll
            (shows _ identifier old oldFound keepsAll wasComplete)
            wasComplete scope
  | @created query _ _ located isQuery caches pending =>
      subst located
      rw [pending]
      rw [isQuery] at keepsAll
      exact View.showsLeaves_create sound.pending isQuery caches keepsAll
        complete

theorem ShowsLeaves.after
    (shows : engine.ShowsLeaves) (fresh : engine.Fresh)
    (sound : engine.Sound) {calls : List Call}
    (valid : ∀ call ∈ calls, call.Valid) :
    (engine.after calls).ShowsLeaves :=
  (sound.after_of_perform (fun engine => engine.Fresh ∧ engine.ShowsLeaves)
    (fun before callValid ⟨fresh, shows⟩ =>
      ⟨fresh.perform before callValid,
        shows.perform fresh before callValid⟩) ⟨fresh, shows⟩ valid).2

/-! ## Without pending writes -/

private theorem Sound.overlay_of_settled
    (sound : engine.Sound) (settled : engine.pending.writes = []) :
    engine.pending.overlay = .empty := by
  rw [sound.pending.layered, settled]
  rfl

/-- Without pending writes, the data of the server shows as it is. -/
theorem Sound.laidOver_of_settled
    (sound : engine.Sound) (settled : engine.pending.writes = [])
    (path : Path) (node : Node) :
    engine.pending.laidOver path node = node := by
  unfold Pending.laidOver
  rw [sound.overlay_of_settled settled, Overlay.restrict_empty]
  exact Overlay.apply_of_isEmpty rfl node

/-- In every state without pending writes that a run reaches, a view over complete data of the
server shows the children of this data, and a leaf as it is. It shows this data as a whole unless
its own priority is another one, or a leaf is left over although there is no data. -/
theorem settled_agrees_iff
    (config : Config) (calls : List Call)
    (valid : ∀ call ∈ calls, call.Valid)
    (settled : ((create config).after calls).pending.writes = [])
    {path : Path} {view : View}
    (live : ((create config).after calls).Live path view)
    (keepsAll : view.query.selection.keepsAll = true)
    (complete : view.caches.server.complete = true) :
    (∀ key : Key, key.isPriority = false →
      (view.caches.visible.node.child key).same
        (view.caches.server.node.child key) = true) ∧
    (view.caches.server.node.isLeaf = true →
      view.caches.visible.node.same view.caches.server.node = true) ∧
    (view.caches.visible.node.same view.caches.server.node = true ↔
      Priority.orderOptional view.caches.visible.node.priority?
          view.caches.server.node.priority? = .eq ∧
        ¬ (view.caches.visible.node.isLeaf = true ∧
          view.caches.server.node.isEmpty = true)) := by
  have sound := (Sound.create config).after valid
  have fresh := (fresh_create config).after (Sound.create config) valid
  have shows :=
    (showsLeaves_create config).after (fresh_create config)
      (Sound.create config) valid
  obtain ⟨identifier, found⟩ := sound.lookup?_of_live live
  have viewSound := sound.sites.view found
  have viewFresh := fresh path identifier view found
  have plain :
      ((create config).after calls).pending.overlay.Plain
        view.query.path := by
    rw [sound.overlay_of_settled settled]
    exact Overlay.plain_empty view.query.path
  have viewShows :=
    shows path identifier view found keepsAll complete plain
  have known := viewFresh.known
  rw [complete, Bool.true_or] at known
  have sameChildren (key : Key) (keyUnreserved : key.isPriority = false) :
      view.caches.visible.node.child key ≈
        view.caches.server.node.child key := by
    have shown := viewFresh.children keepsAll known key keyUnreserved
    rw [sound.laidOver_of_settled settled] at shown
    exact shown
  have sameLeaf (leaf : view.caches.server.node.isLeaf = true) :
      view.caches.visible.node ≈ view.caches.server.node := by
    have shown := viewShows.shown
    rw [sound.laidOver_of_settled settled] at shown
    exact shown leaf
  exact ⟨sameChildren, sameLeaf,
    Node.same_iff_of_children viewSound.canonical.visible
      viewSound.canonical.server sameChildren sameLeaf⟩

/-- A leaf of the server under a local deletion of a child, while the server replaces the leaf by
this child and then deletes it. -/
def leafUnderDeletion : List Call :=
  [.register { path := [⟨"v"⟩] } (.all 1),
    .serverOverwrite [⟨"v"⟩] (.ofScalar (.bool true)),
    .userOverwrite [⟨"v"⟩, ⟨"a"⟩] .empty 1 true,
    .serverOverwrite [⟨"v"⟩, ⟨"a"⟩] (.ofScalar (.bool false)),
    .serverOverwrite [⟨"v"⟩, ⟨"a"⟩] .empty,
    .acknowledge 1 true]

theorem settled_agrees_iff_leaf_under_deletion :
    ∃ view,
      ((create { session := "" }).after leafUnderDeletion).Live [⟨"v"⟩]
          view ∧
        ((create { session := "" }).after
          leafUnderDeletion).pending.writes = [] ∧
        (∀ key : Key, key.isPriority = false →
          (view.caches.visible.node.child key).same
            (view.caches.server.node.child key) = true) ∧
        view.caches.visible.node.same view.caches.server.node = false := by
  have valid : ∀ call ∈ leafUnderDeletion, call.Valid := by
    simp [leafUnderDeletion, Call.Valid, Node.Canonical.ofScalar,
      Node.Canonical.empty]
  have settled :
      ((create { session := "" }).after leafUnderDeletion).pending.writes =
        [] := by
    decide +kernel
  have stored :
      ∃ site ∈ ((create { session := "" }).after leafUnderDeletion).sites,
        site.1 = [⟨"v"⟩] ∧ ∃ entry ∈ site.2,
          entry.2.query.selection.keepsAll = true ∧
            entry.2.caches.server.complete = true ∧
            entry.2.caches.visible.node.isLeaf = true ∧
            entry.2.caches.server.node.isEmpty = true := by
    decide +kernel
  obtain ⟨⟨_, site⟩, siteMember, rfl, ⟨identifier, view⟩, viewMember,
      keepsAll, complete, leaf, noData⟩ := stored
  have live : ((create { session := "" }).after leafUnderDeletion).Live
      [⟨"v"⟩] view :=
    ⟨site, identifier, siteMember, viewMember⟩
  obtain ⟨sameChildren, _, agreesIff⟩ :=
    settled_agrees_iff _ _ valid settled live keepsAll complete
  refine ⟨view, live, settled, sameChildren, ?_⟩
  rw [Bool.eq_false_iff]
  intro equal
  exact (agreesIff.mp equal).2 ⟨leaf, noData⟩

/-- Data of the server with a priority, whose only child is deleted locally until the deletion is
rejected. -/
def deletionUnderPriority : List Call :=
  [.register { path := [⟨"v"⟩] } (.all 1),
    .serverOverwrite [⟨"v"⟩]
      (.branch [(⟨"a"⟩, .ofScalar (.bool true))] (some (.text "p"))),
    .userOverwrite [⟨"v"⟩, ⟨"a"⟩] .empty 1 true,
    .acknowledge 1 true]

/-- After the rejection the view shows the child again, but no longer the priority. -/
theorem settled_misses_priority :
    ∃ view,
      ((create { session := "" }).after deletionUnderPriority).Live
          [⟨"v"⟩] view ∧
        ((create { session := "" }).after
          deletionUnderPriority).pending.writes = [] ∧
        view.query.selection.keepsAll = true ∧
        view.caches.server.complete = true ∧
        view.caches.visible.node.same view.caches.server.node = false :=
  ⟨_, ⟨_, _, List.mem_singleton_self _, List.mem_singleton_self _⟩,
    rfl, rfl, rfl, by decide +kernel⟩

end Engine

end Replica
