import Replica.Proofs.Engine.Residue

/-!
# What shows where only a write is known

A view without complete data of the server is complete all the same where a pending write
determines its location. Operations on children then change what it shows child by child, and no
leaf is ever put in place of nothing. So the leaf of the write may be missing; but a leaf that
shows is the leaf of the write.
-/

namespace Replica

/-- Without complete data of the server, no leaf is put in place of nothing. -/
theorem Caches.visibleAfter_of_incomplete
    (filter : Filter) {server : Cache} (incomplete : server.complete = false)
    (vantage : Vantage) (ancestor? : Option Node) (node : Node)
    (keys : List Key) :
    visibleAfter filter server vantage ancestor? node (.children keys) =
      childrenAfter filter server vantage
        (vantage.known (ancestor?.or server.complete?)) node keys := by
  change (leafEdit filter server vantage (childrenAfter filter server
    vantage _ node keys)).node = _
  unfold leafEdit
  rw [Cache.complete?_of_incomplete incomplete]
  split
  · rfl
  · rfl

namespace View

/-- Where a write determines the location, and the data of the server are not complete, a leaf that
is shown is that of the write. -/
def ShowsWritten (pending : Pending) (view : View) : Prop :=
  pending.overlay.Plain view.query.path →
    view.caches.server.complete = false →
      (pending.overlay.node? view.query.path).isSome = true →
        view.caches.visible.node.isLeaf = true →
          view.caches.visible.node ≈
            pending.laidOver view.query.path .empty

private theorem ShowsWritten.kept
    {old view : View} {pending next : Pending}
    (shows : old.ShowsWritten pending) (sound : pending.Sound)
    (nextSound : next.Sound) (query : view.query = old.query)
    (caches : view.caches = old.caches)
    {writes : List (Path × Node)}
    (writesCanonical : ∀ write ∈ writes, write.2.Canonical)
    (turns : Overlay.Turns pending.overlay next.overlay writes)
    (unseen : writes.filterMap (Overlay.seenFrom old.query.path) = []) :
    view.ShowsWritten next := by
  intro nextPlain incomplete covered leaf
  rw [query] at nextPlain covered ⊢
  rw [caches] at incomplete leaf ⊢
  have outside := Overlay.outside_of_unseen unseen
  have plain :=
    (turns.plain_iff sound.overlay_valid writesCanonical outside).mp
      nextPlain
  rw [turns.isSome_node? sound.overlay_valid writesCanonical outside]
    at covered
  have sameData :=
    Pending.laidOver_congr nextSound sound
      (turns.restrict_of_unseen sound.overlay_valid writesCanonical plain
        unseen) (Setoid.refl .empty) Node.Canonical.empty
      Node.Canonical.empty
  exact Setoid.trans (shows plain incomplete covered leaf)
    (Setoid.symm sameData)

/-- A write that determines the location shows as it is when everything is computed anew. -/
theorem visibleNode_of_determined
    {pending : Pending} (sound : pending.Sound) {path : Path}
    (determined : (pending.overlay.node? path).isSome = true)
    (server : Cache) :
    Caches.visibleNode server (pending.at path) =
      pending.laidOver path .empty := by
  have known : (server.complete ||
      ((pending.at path).shadow? []).isSome) = true := by
    rw [Vantage.shadow?_nil]
    exact Bool.or_eq_true_iff.mpr (Or.inr determined)
  rw [@Caches.visibleNode_of_known (pending.at path) sound server known]
  exact Pending.laidOver_of_determined sound determined _ _

section

variable {old : View} {pending next : Pending} (fresh : old.Fresh pending)
  (sound : pending.Sound) (nextSound : next.Sound)
  (canonical : old.caches.Canonical)
  {ancestor? : Option Node}
  (ancestorCanonical : ∀ ancestor ∈ ancestor?, ancestor.Canonical)
  {operation relative : Operation}
  (shown : operation.Shows relative old.query.path)
  (valid : operation.Valid)
  (turns : Overlay.Turns pending.overlay next.overlay operation.writes)
  (keepsAll : old.query.selection.keepsAll = true)

include nextSound keepsAll

private theorem showsWritten_after_all (scope : relative.scope = .all) :
    (old.after relative (next.at old.query.path) ancestor?).ShowsWritten
      next := by
  intro _ _ covered _
  change (next.overlay.node? old.query.path).isSome = true at covered
  change Caches.visibleAfter old.filter _ _ _ _ relative.scope ≈ _
  rw [scope]
  change old.filter.select
    (Caches.visibleNode _ (next.at old.query.path)) ≈
      next.laidOver old.query.path .empty
  rw [select_of_keepsAll keepsAll,
    visibleNode_of_determined nextSound covered]

include fresh sound canonical ancestorCanonical shown valid turns

/-- An operation on children leaves no leaf but the one that was shown, and the leaf of a write that
still determines the location stays as it is. -/
theorem ShowsWritten.after_children
    (shows : old.ShowsWritten pending)
    {keys : List Key} (scope : relative.scope = .children keys) :
    (old.after relative (next.at old.query.path) ancestor?).ShowsWritten
      next := by
  intro nextPlain nextIncomplete nextCovered leaf
  change (Caches.receive old.filter old.caches relative).server.complete =
    false at nextIncomplete
  change (next.overlay.node? old.query.path).isSome = true at nextCovered
  have outside := outside_of_scope shown scope
  have writesCanonical := valid.canonical_of_mem_writes
  have plain :=
    (turns.plain_iff sound.overlay_valid writesCanonical outside).mp
      nextPlain
  have covered : (pending.overlay.node? old.query.path).isSome = true := by
    rw [← turns.isSome_node? sound.overlay_valid writesCanonical outside]
    exact nextCovered
  have covers := Operation.covers_of_scope scope
  have everything := Selection.filter_of_keepsAll keepsAll
  have incomplete : old.caches.server.complete = false := by
    rw [← Caches.complete_receive_of_children scope]
    exact nextIncomplete
  -- Child by child a leaf only stays, so it was shown before.
  have unchanged :
      (old.after relative (next.at old.query.path)
        ancestor?).caches.visible.node = old.caches.visible.node := by
    change Caches.visibleAfter old.filter _ _ _ _ relative.scope = _
    change (Caches.visibleAfter old.filter _ _ _ _
      relative.scope).isLeaf = true at leaf
    rw [scope, Caches.visibleAfter_of_incomplete _ nextIncomplete, filter,
      everything] at leaf ⊢
    exact Caches.childrenAfter_eq_of_isLeaf covers.1 leaf
  rw [unchanged] at leaf ⊢
  have wasShown := shows plain incomplete covered leaf
  have wasLeaf :
      (pending.laidOver old.query.path .empty).isLeaf = true := by
    rw [← Node.isLeaf_congr wasShown]
    exact leaf
  have turn :=
    @Pending.leafTurns_of_turns _ _ sound nextSound _ turns writesCanonical
      _ plain nextPlain _ [] shown.writes covers.inChild
      shown.valid.apart_of_mem_writes
      (fun _ member => absurd member List.not_mem_nil)
      (fun _ member => absurd member List.not_mem_nil) _
      Node.Canonical.empty
  rw [Node.lay_nil] at turn
  cases nextLeaf : (next.laidOver old.query.path .empty).isLeaf with
  | true => exact Setoid.trans wasShown (Setoid.symm (turn.same wasLeaf nextLeaf))
  | false =>
      -- The leaf of the write cannot have given way to no data while the write is there.
      have childless (key : Key) (unreserved : key.isPriority = false) :
          ((next.laidOver old.query.path .empty).child key).isEmpty =
            true := by
        have nextFresh :=
          fresh.after sound nextSound canonical ancestorCanonical shown
            valid turns
        have nextKnown := nextFresh.known.trans
          (Bool.or_eq_true_iff.mpr (Or.inr nextCovered))
        have serverCanonical :=
          Caches.canonical_receive canonical.server shown.valid old.filter
        have showsChild :=
          nextFresh.children keepsAll nextKnown key unreserved
        rw [unchanged] at showsChild
        have child : old.caches.visible.node.child key ≈
            (next.laidOver old.query.path (Caches.receive old.filter
              old.caches relative).server.node).child key :=
          Setoid.trans showsChild (Setoid.symm
            (Pending.child_laidOver nextSound _ unreserved serverCanonical))
        rw [Pending.laidOver_of_determined nextSound nextCovered .empty
          (Caches.receive old.filter old.caches relative).server.node,
          ← Node.isEmpty_congr child, Node.child_leaf leaf unreserved]
        rfl
      have uncovered := (turn.gone wasLeaf nextLeaf childless).1
      rw [uncovered] at nextCovered
      cases nextCovered

end

private theorem showsWritten_create
    {pending : Pending} (sound : pending.Sound) {query : Query}
    {server : Cache} {view : View} (isQuery : view.query = query)
    (caches : view.caches =
      (create query server (pending.at query.path)).caches)
    (keepsAll : query.selection.keepsAll = true) :
    view.ShowsWritten pending := by
  subst isQuery
  intro _ _ covered _
  rw [caches]
  change view.filter.select (Caches.visibleNode server _) ≈ _
  rw [select_of_keepsAll keepsAll, visibleNode_of_determined sound covered]

end View

namespace Engine

/-- All live views that keep every child show no leaf but that of the write where only a write is
known. -/
def ShowsWritten (engine : Engine) : Prop :=
  ∀ path identifier view,
    engine.sites.lookup? path identifier = some view →
      view.query.selection.keepsAll = true →
        view.ShowsWritten engine.pending

theorem showsWritten_create (config : Config) :
    (create config).ShowsWritten := by
  intro path identifier view found
  cases found

variable {engine : Engine}

private theorem ShowsWritten.perform
    (shows : engine.ShowsWritten) (fresh : engine.Fresh)
    (sound : engine.Sound) {call : Call} (valid : call.Valid) :
    (engine.perform call).2.ShowsWritten := by
  intro path identifier view found keepsAll
  have nextSound := sound.perform valid
  cases (course_perform sound valid).origin sound found with
  | kept oldFound query caches canonical turns unseen _ =>
      have oldSound := sound.sites.view oldFound
      obtain rfl := oldSound.located
      rw [query] at keepsAll
      exact (shows _ identifier _ oldFound keepsAll).kept sound.pending
        nextSound.pending query caches canonical turns unseen
  | @took old operation relative _ oldFound ancestor shown operationValid
      turns result _ _ =>
      have oldSound := sound.sites.view oldFound
      obtain rfl := oldSound.located
      subst result
      cases scope : relative.scope with
      | all =>
          exact View.showsWritten_after_all nextSound.pending keepsAll scope
      | children keys =>
          exact View.ShowsWritten.after_children
            (fresh _ identifier old oldFound) sound.pending
            nextSound.pending oldSound.canonical ancestor shown
            operationValid turns keepsAll
            (shows _ identifier old oldFound keepsAll) scope
  | @created query _ _ located isQuery caches pending =>
      subst located
      rw [pending]
      rw [isQuery] at keepsAll
      exact View.showsWritten_create sound.pending isQuery caches keepsAll

theorem ShowsWritten.after
    (shows : engine.ShowsWritten) (fresh : engine.Fresh)
    (sound : engine.Sound) {calls : List Call}
    (valid : ∀ call ∈ calls, call.Valid) :
    (engine.after calls).ShowsWritten :=
  (sound.after_of_perform (fun engine => engine.Fresh ∧ engine.ShowsWritten)
    (fun before callValid ⟨fresh, shows⟩ =>
      ⟨fresh.perform before callValid,
        shows.perform fresh before callValid⟩) ⟨fresh, shows⟩ valid).2

end Engine

end Replica
