import Replica.Proofs.Engine.Step
import Replica.Proofs.View.Unfiltered

/-!
# Visible children are up to date

A view computes only the children anew that an operation touches. The children that it shows are
nevertheless always those that the pending writes give over its data of the server.
-/

namespace Replica

namespace View

/-- What a view shows is known as far as its data of the server and the writes that cover its
location tell, and its children are the pending writes over the data of the server. -/
structure Fresh (pending : Pending) (view : View) : Prop where
  filtered : view.caches.server.filtered = view.filter.drops
  known : view.caches.visible.complete =
    (view.caches.server.complete ||
      (pending.overlay.node? view.query.path).isSome)
  children : view.query.selection.keepsAll = true →
    view.caches.visible.complete = true →
    ∀ key : Key, key.isPriority = false →
      view.caches.visible.node.child key ≈
        pending.laidOver (view.query.path ++ [key])
          (view.caches.server.node.child key)

/-! ## Creation -/

private theorem fresh_create
    {pending : Pending} (sound : pending.Sound) {query : Query}
    {server : Cache}
    (canonical : server.node.Canonical) {view : View}
    (isQuery : view.query = query)
    (caches : view.caches =
      (create query server (pending.at query.path)).caches) :
    view.Fresh pending := by
  subst isQuery
  have vantageSound : (pending.at view.query.path).pending.Sound := sound
  have known : view.caches.visible.complete =
      (server.complete ||
        ((pending.at view.query.path).shadow? []).isSome) := by
    rw [caches]
    rfl
  refine ⟨?_, ?_, ?_⟩
  · rw [caches]
    rfl
  · rw [known, Vantage.shadow?_nil, caches]
    rfl
  · intro keepsAll complete key keyUnreserved
    have everything := Selection.filter_of_keepsAll keepsAll
    have shown : view.caches.visible.node =
        Caches.visibleNode server (pending.at view.query.path) := by
      rw [caches]
      unfold create
      dsimp only
      rw [everything]
      rfl
    have serverNode : view.caches.server.node = server.node := by
      rw [caches]
      unfold create
      dsimp only
      rw [everything]
      rfl
    rw [known] at complete
    rw [shown, serverNode,
      Caches.visibleNode_of_known vantageSound complete]
    exact Pending.child_laidOver sound _ keyUnreserved canonical

/-! ## Operations that do not reach the view -/

private theorem Fresh.kept
    {old view : View} {pending next : Pending}
    (fresh : old.Fresh pending) (sound : pending.Sound)
    (nextSound : next.Sound) (canonical : old.caches.Canonical)
    (query : view.query = old.query) (caches : view.caches = old.caches)
    {writes : List (Path × Node)}
    (writesCanonical : ∀ write ∈ writes, write.2.Canonical)
    (turns : Overlay.Turns pending.overlay next.overlay writes)
    (unseen : writes.filterMap (Overlay.seenFrom old.query.path) = []) :
    view.Fresh next := by
  have outside := Overlay.outside_of_unseen unseen
  have sameFilter : view.filter = old.filter := by
    unfold View.filter
    rw [query]
  refine ⟨?_, ?_, ?_⟩
  · rw [caches, sameFilter]
    exact fresh.filtered
  · rw [caches, query,
      turns.isSome_node? sound.overlay_valid writesCanonical outside]
    exact fresh.known
  · intro keepsAll complete key unreserved
    rw [caches] at complete ⊢
    rw [query] at keepsAll ⊢
    have unseenChild :
        writes.filterMap (Overlay.seenFrom (old.query.path ++ [key])) =
          [] := by
      rw [Overlay.filterMap_seenFrom_append, unseen]
      rfl
    refine Setoid.trans
      (fresh.children keepsAll complete key unreserved) ?_
    refine Pending.laidOver_congr sound nextSound ?_ (Setoid.refl _)
      (canonical.server.child key) (canonical.server.child key)
    exact Setoid.symm (turns.restrict_child_of_unseen sound.overlay_valid
      writesCanonical outside unreserved unseenChild
      nextSound.overlay_valid)

/-! ## Operations that reach the view -/

/-- An operation that touches only children does not cover their parent. -/
theorem outside_of_scope
    {operation relative : Operation} {path : Path}
    (shows : operation.Shows relative path)
    {keys : List Key} (scope : relative.scope = .children keys) :
    ∀ write ∈ operation.writes, Path.contains write.1 path = false := by
  intro write member
  rw [Bool.eq_false_iff]
  intro contained
  obtain ⟨below, rfl⟩ := Path.contains_iff.mp contained
  have seen : ([], write.2.descendant below) ∈ relative.writes := by
    rw [shows.writes]
    exact List.mem_filterMap.mpr
      ⟨write, member, Overlay.seenFrom_above write.1 below write.2⟩
  obtain ⟨key, _, rest, split⟩ :=
    (Operation.covers_of_scope scope).2 _ seen
  cases split

/-- Nothing is seen of such an operation from the children that it does not touch. -/
theorem unseen_of_untouched
    {operation relative : Operation} {path : Path}
    (shows : operation.Shows relative path)
    {keys : List Key} (scope : relative.scope = .children keys)
    {key : Key} (untouched : key ∉ keys) :
    operation.writes.filterMap (Overlay.seenFrom (path ++ [key])) = [] := by
  rw [Overlay.filterMap_seenFrom_append, ← shows.writes]
  exact (Operation.covers_of_scope scope).unseen untouched

/-- Everything that the children of a view depend on after an operation. -/
theorem Fresh.after
    {old : View} {pending next : Pending} (fresh : old.Fresh pending)
    (sound : pending.Sound) (nextSound : next.Sound)
    (canonical : old.caches.Canonical)
    {ancestor? : Option Node}
    (ancestorCanonical : ∀ ancestor ∈ ancestor?, ancestor.Canonical)
    {operation relative : Operation}
    (shows : operation.Shows relative old.query.path)
    (valid : operation.Valid)
    (turns : Overlay.Turns pending.overlay next.overlay operation.writes) :
    (old.after relative (next.at old.query.path) ancestor?).Fresh
      next := by
  have vantageSound : (next.at old.query.path).pending.Sound := nextSound
  have serverCanonical :=
    Caches.canonical_receive canonical.server shows.valid old.filter
  have filtered :=
    Caches.filtered_receive fresh.filtered relative
  have outside {keys : List Key} (scope : relative.scope = .children keys) :
      ∀ write ∈ operation.writes,
        Path.contains write.1 old.query.path = false :=
    outside_of_scope shows scope
  refine ⟨filtered, ?_, ?_⟩
  · have shadow := Vantage.shadow?_nil (next.at old.query.path)
    change (_ || ((next.at old.query.path).shadow? []).isSome) = _
    rw [shadow]
    rfl
  · intro keepsAll complete key unreserved
    have everything : old.filter = .everything old.query.selection.index :=
      Selection.filter_of_keepsAll keepsAll
    rw [everything] at serverCanonical filtered
    change ((Caches.receive old.filter old.caches relative).server.complete
      || ((next.at old.query.path).shadow? []).isSome) = true at complete
    change (Caches.visibleAfter old.filter
      (Caches.receive old.filter old.caches relative).server
      (next.at old.query.path) ancestor? old.caches.visible.node
      relative.scope).child key ≈
        next.laidOver (old.query.path ++ [key])
          ((Caches.receive old.filter old.caches relative).server.node.child
            key)
    rw [everything] at complete ⊢
    have result :=
      @Caches.child_visibleAfter old.query.selection.index _ _ vantageSound
        serverCanonical filtered complete _ ancestorCanonical _
        canonical.visible relative.scope
        (fun keys scope => (Operation.covers_of_scope scope).1) key
        unreserved
    rcases result with computed | ⟨keys, scope, untouched, kept⟩
    · exact computed
    · have sameServer :=
        @Caches.child_receive_of_untouched old.query.selection.index _
          canonical.server _ shows.valid _ scope _ unreserved untouched
      have wasComplete : old.caches.visible.complete = true := by
        rw [fresh.known, ← turns.isSome_node? sound.overlay_valid
          valid.canonical_of_mem_writes (outside scope)]
        rw [Caches.complete_receive_of_children scope,
          Vantage.shadow?_nil] at complete
        exact complete
      rw [kept, sameServer]
      refine Setoid.trans
        (fresh.children keepsAll wasComplete key unreserved) ?_
      exact Pending.laidOver_congr sound nextSound
        (Setoid.symm (turns.restrict_child_of_unseen sound.overlay_valid
          valid.canonical_of_mem_writes (outside scope) unreserved
          (unseen_of_untouched shows scope untouched)
          nextSound.overlay_valid))
        (Setoid.refl _) (canonical.server.child key)
        (canonical.server.child key)

end View

namespace Engine

/-- All live views are up to date. -/
def Fresh (engine : Engine) : Prop :=
  ∀ path identifier view,
    engine.sites.lookup? path identifier = some view →
      view.Fresh engine.pending

theorem fresh_create (config : Config) : (create config).Fresh := by
  intro path identifier view found
  cases found

/-- A call keeps all views up to date. -/
theorem Fresh.perform
    {engine : Engine} (fresh : engine.Fresh) (sound : engine.Sound)
    {call : Call} (valid : call.Valid) : (engine.perform call).2.Fresh := by
  intro path identifier view found
  have nextSound := sound.perform valid
  cases (course_perform sound valid).origin sound found with
  | kept oldFound query caches canonical turns unseen _ =>
      have oldFresh := fresh path identifier _ oldFound
      have oldSound := sound.sites.view oldFound
      obtain rfl := oldSound.located
      exact oldFresh.kept sound.pending nextSound.pending
        oldSound.canonical query caches canonical turns unseen
  | @took old _ _ _ oldFound ancestor shows valid turns result _ _ =>
      have oldSound := sound.sites.view oldFound
      obtain rfl := oldSound.located
      rw [result]
      exact (fresh _ identifier old oldFound).after
        sound.pending nextSound.pending oldSound.canonical ancestor shows
        valid turns
  | @created query _ _ located isQuery caches pending =>
      subst located
      rw [pending]
      exact View.fresh_create sound.pending
        (Sites.canonical_serverCache sound.sites query.path) isQuery caches

theorem Fresh.after
    {engine : Engine} (fresh : engine.Fresh) (sound : engine.Sound)
    {calls : List Call} (valid : ∀ call ∈ calls, call.Valid) :
    (engine.after calls).Fresh :=
  sound.after_of_perform Fresh
    (fun before callValid fresh => fresh.perform before callValid) fresh valid

/-- In every state that a run reaches, the children that a view without bounds and limit shows
are those of the node computed from scratch from its data of the server and the pending writes. -/
theorem visible_children_from_scratch
    (config : Config) (calls : List Call)
    (valid : ∀ call ∈ calls, call.Valid) {path : Path} {view : View}
    (live : ((create config).after calls).Live path view)
    (keepsAll : view.query.selection.keepsAll = true)
    (complete : view.caches.visible.complete = true) :
    ∃ node,
      ((create config).after calls).pending.node? path
          view.caches.server.complete? false = some node ∧
        ∀ key : Key, key.isPriority = false →
          (view.caches.visible.node.child key).same
            (node.child key) = true := by
  have sound := (Sound.create config).after valid
  have fresh := (fresh_create config).after (Sound.create config) valid
  obtain ⟨identifier, found⟩ := sound.lookup?_of_live live
  have viewSound := sound.sites.view found
  have viewFresh := fresh path identifier view found
  have location := viewSound.located
  have known := viewFresh.known
  rw [complete, location] at known
  have sameNode :
      ((create config).after calls).pending.laidOver path
          (view.caches.server.complete?.getD .empty) =
        ((create config).after calls).pending.laidOver path
          view.caches.server.node := by
    cases serverComplete : view.caches.server.complete with
    | true =>
        rw [Cache.complete?_of_complete serverComplete, Option.getD_some]
    | false =>
        rw [serverComplete, Bool.false_or] at known
        obtain ⟨shadow, covered⟩ :=
          Option.isSome_iff_exists.mp known.symm
        rw [Pending.laidOver_of_node? sound.pending covered,
          Pending.laidOver_of_node? sound.pending covered]
  have isKnown :
      (view.caches.server.complete?.isSome ||
        (((create config).after calls).pending.overlay.node?
          path).isSome) = true := by
    rw [Cache.isSome_complete?]
    exact known.symm
  refine ⟨((create config).after calls).pending.laidOver path
    view.caches.server.node, ?_, fun key keyUnreserved => ?_⟩
  · rw [Pending.node?_eq sound.pending, if_pos isKnown, sameNode]
  · have shown := viewFresh.children keepsAll complete key keyUnreserved
    rw [location] at shown
    exact Setoid.trans shown
      (Setoid.symm (Pending.child_laidOver sound.pending path keyUnreserved
        viewSound.canonical.server))

/-- A leaf of the server under a local write of a child, with a listener for all of it. -/
def writeOverLeaf : List Call :=
  [.register { path := [] } (.all 1),
    .serverOverwrite [] (.ofScalar (.bool true)),
    .userOverwrite [⟨"a"⟩] (.ofScalar (.bool false)) 1 true]

theorem visible_children_from_scratch_over_leaf :
    ∃ view,
      ((create { session := "" }).after writeOverLeaf).Live [] view ∧
        view.query.selection.keepsAll = true ∧
        view.caches.visible.complete = true ∧
        ∃ node,
          ((create { session := "" }).after writeOverLeaf).pending.node?
              [] view.caches.server.complete? false = some node ∧
            ∀ key : Key, key.isPriority = false →
              (view.caches.visible.node.child key).same
                (node.child key) = true := by
  have valid : ∀ call ∈ writeOverLeaf, call.Valid := by
    simp [writeOverLeaf, Call.Valid, Node.Canonical.ofScalar]
  have live : ∃ view,
      ((create { session := "" }).after writeOverLeaf).Live [] view ∧
        view.query.selection.keepsAll = true ∧
        view.caches.visible.complete = true :=
    ⟨_, ⟨_, _, List.mem_singleton_self _, List.mem_singleton_self _⟩,
      rfl, rfl⟩
  obtain ⟨view, isLive, keepsAll, complete⟩ := live
  exact ⟨view, isLive, keepsAll, complete,
    visible_children_from_scratch _ _ valid isLive keepsAll complete⟩

end Engine

end Replica
