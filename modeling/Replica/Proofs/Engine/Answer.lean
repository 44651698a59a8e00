import Replica.Proofs.Engine.Truth
import Replica.Proofs.Engine.Written
import Replica.Proofs.Overlay.Data

/-!
# Two answers for one location

What a query without bounds and limit reports through its view is kept up to date from call to
call. What the engine computes for the same location comes from the data of the server that some
site at or above it holds, and the pending writes. The children agree in every state. Only a leaf
may be shown in one answer and not in the other: the view may keep a leaf of the server although
there is no data any more, and without complete data of the server it does not bring back the leaf
of a write.
-/

namespace Replica

namespace Engine

/-! ## Views under their own names -/

/-- Every view stands under the identifier of its query. -/
def Named (engine : Engine) : Prop :=
  ∀ path identifier view,
    engine.sites.lookup? path identifier = some view →
      view.query.identifier = identifier

theorem named_create (config : Config) : (create config).Named := by
  intro path identifier view found
  cases found

variable {engine : Engine}

theorem Named.perform
    (named : engine.Named) (sound : engine.Sound)
    {call : Call} (valid : call.Valid) :
    (engine.perform call).2.Named := by
  intro path identifier view found
  have course := course_perform sound valid
  generalize engine.perform call = outcome at *
  cases course with
  | quiet sites =>
      rw [sites] at found
      exact named path identifier view found
  | routed operationValid _ _ delivered =>
      rcases delivered.view sound.sites found with ⟨_, old⟩ |
        ⟨_, site, old, _, _, siteFound, oldFound, _, result, _⟩
      · exact named path identifier view old
      · rw [result]
        exact named path identifier old
          (Sites.lookup?_eq_some_iff.mpr ⟨site, siteFound, oldFound⟩)
  | narrowed _ narrows =>
      obtain ⟨old, oldFound, query, _⟩ :=
        narrows.views path identifier view found
      rw [query]
      exact named path identifier old oldFound
  | @joined query registration old next _ _ _ origin here elsewhere =>
      by_cases isHere :
          path = query.path ∧ identifier = query.identifier
      · obtain ⟨rfl, rfl⟩ := isHere
        rw [here] at found
        cases found
        rcases origin with oldFound | ⟨_, created⟩
        · exact named query.path query.identifier old oldFound
        · rw [created]
          rfl
      · rw [elsewhere path identifier (not_and_or.mp isHere)] at found
        exact named path identifier view found

private theorem Named.after
    (named : engine.Named) (sound : engine.Sound)
    {calls : List Call} (valid : ∀ call ∈ calls, call.Valid) :
    (engine.after calls).Named :=
  sound.after_of_perform Named
    (fun before callValid named => named.perform before callValid) named valid

/-- A query with a view reports what its view shows, if that is complete. -/
theorem Named.latest?
    (named : engine.Named) (sound : engine.Sound)
    {path : Path} {view : View} (live : engine.Live path view) :
    engine.latest? view.query = view.caches.visible.complete? := by
  obtain ⟨identifier, found⟩ := sound.lookup?_of_live live
  have located := (sound.sites.view found).located
  have name := named path identifier view found
  have isView : engine.sites.view? view.query = some view := by
    change engine.sites.lookup? view.query.path view.query.identifier = _
    rw [located, name]
    exact found
  rw [Engine.latest?, isView]

variable {data : Node}

/-! ## The answers -/

/-- A view over all data of the server can be asked for it. -/
theorem isSome_serverNode?
    {path : Path} {view : View} (live : engine.Live path view)
    (keepsAll : view.query.selection.keepsAll = true)
    (complete : view.caches.server.complete = true) :
    (engine.sites.serverNode? path false).isSome = true := by
  obtain ⟨site, identifier, siteMember, viewMember⟩ := live
  have answer : view.serverNode? [] = some view.caches.server.node := by
    unfold View.serverNode?
    rw [Cache.complete?_of_complete complete, keepsAll]
    rfl
  have siteAnswer : (site.serverNode? []).isSome = true := by
    refine List.findSome?_isSome_iff.mpr ⟨_, viewMember, ?_⟩
    exact Option.isSome_of_eq_some answer
  refine List.findSome?_isSome_iff.mpr ⟨_, siteMember, ?_⟩
  dsimp only
  rw [Path.below?_self]
  exact siteAnswer

section

variable (sound : engine.Sound) {path : Path} {view : View}
  (live : engine.Live path view)
  (keepsAll : view.query.selection.keepsAll = true)
  (known : (view.caches.server.complete ||
    (engine.pending.overlay.node? path).isSome) = true)

include sound live keepsAll known

/-- Where a view knows what to show, the engine computes the pending writes over the view's data of
the server, whichever site it asks. -/
theorem node?_equiv
    (copies : engine.Copies data) (unreserved : path.Unreserved) :
    ∃ computed, engine.node? path = some computed ∧
      computed.Canonical ∧
      computed ≈ engine.pending.laidOver path view.caches.server.node := by
  obtain ⟨identifier, found⟩ := sound.lookup?_of_live live
  have viewSound := sound.sites.view found
  have reflects := copies.views path identifier view found unreserved
  rw [node?, Pending.node?_eq sound.pending]
  cases complete : view.caches.server.complete with
  | true =>
      obtain ⟨node, answer⟩ := Option.isSome_iff_exists.mp
        (isSome_serverNode? live keepsAll complete)
      have everything : view.filter.drops = false :=
        View.drops_of_keepsAll keepsAll
      have agrees : node ≈ view.caches.server.node :=
        Setoid.trans (copies.serverNode? sound unreserved answer)
          (Setoid.symm (reflects.whole everything complete))
      have canonical := sound.sites.canonical_serverNode? answer
      rw [answer]
      exact ⟨_, rfl, Pending.canonical_laidOver sound.pending _ canonical,
        Pending.laidOver_congr sound.pending sound.pending (Setoid.refl _)
          agrees canonical viewSound.canonical.server⟩
  | false =>
      rw [complete, Bool.false_or] at known
      rw [known, Bool.or_true, if_pos rfl,
        Pending.laidOver_of_determined sound.pending known _
          view.caches.server.node]
      exact ⟨_, rfl, Pending.canonical_laidOver sound.pending _
        viewSound.canonical.server, Setoid.refl _⟩

end

/-- In every state that a run without notices of completion reaches, a query without bounds and
limit reports the children that the engine computes for its location. The two answers hold the same
data unless the view, over all data of the server, keeps a leaf where there is no data, or, without
all of it, shows nothing where a write puts a leaf. -/
theorem answers_agree_iff
    (config : Config) (calls : List Call)
    (valid : ∀ call ∈ calls, call.Valid)
    (writable : ∀ call ∈ calls, call.Writable)
    (incomplete : ∀ call ∈ calls, call.completes = false)
    {path : Path} {view : View}
    (live : ((create config).after calls).Live path view)
    (unreserved : path.Unreserved)
    (keepsAll : view.query.selection.keepsAll = true) {shown : Node}
    (reported :
      ((create config).after calls).latest? view.query = some shown) :
    ∃ computed, ((create config).after calls).node? path = some computed ∧
      (∀ key : Key, key.isPriority = false →
        (shown.child key).same (computed.child key) = true) ∧
      (shown.dataEq computed = true ↔
        if view.caches.server.complete then
          ¬ (shown.isLeaf = true ∧ computed.isEmpty = true)
        else ¬ (shown.isEmpty = true ∧ computed.isLeaf = true)) := by
  have start := Sound.create config
  have startFresh := fresh_create config
  have sound := start.after valid
  have fresh := startFresh.after start valid
  have shows := (showsLeaves_create config).after startFresh start valid
  have showsWritten :=
    (showsWritten_create config).after startFresh start valid
  have copies :=
    (copies_create config).after start (writable_create config) valid
      writable incomplete
  have named := (named_create config).after start valid
  generalize (create config).after calls = engine at *
  obtain ⟨identifier, found⟩ := sound.lookup?_of_live live
  have viewSound := sound.sites.view found
  have viewFresh := fresh path identifier view found
  obtain rfl := viewSound.located
  have plain := Overlay.plain_of_unreserved unreserved engine.pending.overlay
  rw [named.latest? sound live] at reported
  have complete : view.caches.visible.complete = true := by
    rw [← Cache.isSome_complete?, reported]
    rfl
  rw [Cache.complete?_of_complete complete, Option.some.injEq] at reported
  subst reported
  have known := viewFresh.known.symm.trans complete
  obtain ⟨computed, isComputed, computedCanonical, equal⟩ :=
    node?_equiv sound live keepsAll known copies unreserved
  have dataCanonical := viewSound.canonical.server
  have sameChildren (key : Key) (keyUnreserved : key.isPriority = false) :
      view.caches.visible.node.child key ≈ computed.child key :=
    Setoid.trans
      (viewFresh.children keepsAll complete key keyUnreserved)
      (Setoid.trans
        (Setoid.symm (Pending.child_laidOver sound.pending _ keyUnreserved
          dataCanonical))
        (Setoid.symm (Node.child_congr equal key)))
  refine ⟨computed, isComputed, sameChildren, ?_⟩
  cases serverComplete : view.caches.server.complete with
  | true =>
      rw [if_pos rfl]
      refine Node.dataEq_iff_of_children viewSound.canonical.visible
        computedCanonical sameChildren fun leaf => ?_
      rw [Node.isLeaf_congr equal] at leaf
      exact Setoid.trans ((shows _ identifier view found keepsAll
        serverComplete plain).shown leaf) (Setoid.symm equal)
  | false =>
      rw [serverComplete, Bool.false_or] at known
      rw [if_neg Bool.false_ne_true, and_comm]
      refine Iff.trans ⟨Node.dataEq_symm, Node.dataEq_symm⟩
        (Node.dataEq_iff_of_children computedCanonical
          viewSound.canonical.visible
          (fun key keyUnreserved =>
            Setoid.symm (sameChildren key keyUnreserved)) fun leaf => ?_)
      have written := showsWritten _ identifier view found keepsAll plain
        serverComplete known leaf
      rw [Pending.laidOver_of_determined sound.pending known .empty
        view.caches.server.node] at written
      exact Setoid.trans equal (Setoid.symm written)

/-- A leaf is left over where a local deletion hid that the server replaced it by a child, and then
deleted this child. -/
theorem answers_agree_iff_leaf_under_deletion :
    let engine := (create { session := "" }).after leafUnderDeletion
    ∃ view shown computed,
      engine.Live [⟨"v"⟩] view ∧
        engine.latest? view.query = some shown ∧
        engine.node? [⟨"v"⟩] = some computed ∧
        (∀ key : Key, key.isPriority = false →
          (shown.child key).same (computed.child key) = true) ∧
        shown.dataEq computed = false := by
  intro engine
  have valid : ∀ call ∈ leafUnderDeletion, call.Valid := by
    simp [leafUnderDeletion, Call.Valid, Node.Canonical.ofScalar,
      Node.Canonical.empty]
  have writable : ∀ call ∈ leafUnderDeletion, call.Writable := by
    simp [leafUnderDeletion, Call.Writable, Path.Writable, Path.Unreserved,
      Key.isPriority, Key.priority]
  have incomplete : ∀ call ∈ leafUnderDeletion, call.completes = false := by
    simp [leafUnderDeletion, Call.completes]
  have unreserved : Path.Unreserved [⟨"v"⟩] := by
    simp [Path.Unreserved, Key.isPriority, Key.priority]
  have stored :
      ∃ site ∈ engine.sites, site.1 = [⟨"v"⟩] ∧ ∃ entry ∈ site.2,
        entry.2.query.selection.keepsAll = true ∧
          entry.2.caches.server.complete = true ∧
          ((engine.latest? entry.2.query).any (·.isLeaf)) = true := by
    decide +kernel
  have nothing : ((engine.node? [⟨"v"⟩]).all (·.isEmpty)) = true := by
    decide +kernel
  obtain ⟨⟨_, site⟩, siteMember, rfl, ⟨identifier, view⟩, viewMember,
      keepsAll, complete, leaf⟩ := stored
  have live : engine.Live [⟨"v"⟩] view :=
    ⟨site, identifier, siteMember, viewMember⟩
  cases isShown : engine.latest? view.query with
  | none =>
      rw [isShown] at leaf
      cases leaf
  | some shown =>
      rw [isShown] at leaf
      obtain ⟨computed, isComputed, children, agree⟩ :=
        answers_agree_iff { session := "" } leafUnderDeletion valid writable
          incomplete live unreserved keepsAll isShown
      rw [show engine.node? _ = some computed from isComputed] at nothing
      rw [if_pos complete] at agree
      refine ⟨view, shown, computed, live, isShown, isComputed, children, ?_⟩
      exact Bool.eq_false_iff.mpr fun same => agree.mp same ⟨leaf, nothing⟩

/-- A pending leaf at the location, and a write below it that the server rejects. -/
def leafUnderRejectedWrite : List Call :=
  [.register { path := [] } (.all 1),
    .userOverwrite [] (.ofScalar (.bool true)) 1 true,
    .userOverwrite [⟨"c"⟩] (.ofScalar (.bool true)) 2 true,
    .acknowledge 2 true]

/-- The view reports no data, while the pending write puts a leaf there. -/
theorem answers_differ_without_data :
    let engine := (create { session := "" }).after leafUnderRejectedWrite
    (∀ call ∈ leafUnderRejectedWrite,
      call.Valid ∧ call.Writable ∧ call.completes = false) ∧
      ∃ view shown computed,
        engine.Live [] view ∧ view.query = { path := [] } ∧
          engine.latest? { path := [] } = some shown ∧
          engine.node? [] = some computed ∧
          shown.dataEq computed = false := by
  intro engine
  have calls : ∀ call ∈ leafUnderRejectedWrite,
      call.Valid ∧ call.Writable ∧ call.completes = false := by
    simp [leafUnderRejectedWrite, Call.Valid, Call.Writable, Call.completes,
      Node.Canonical.ofScalar, Path.Writable, Path.Unreserved]
  exact ⟨calls, _, .empty, .ofScalar (.bool true),
    ⟨_, _, List.mem_singleton_self _, List.mem_singleton_self _⟩, rfl, rfl,
    rfl, rfl⟩

end Engine

end Replica
