import Replica.Proofs.Engine.Absorption
import Replica.Proofs.Overlay.Replay
import Replica.Proofs.View.Difference

/-!
# Accepted writes

When the server accepts the oldest local write, its data moves from the overlay to the data of the
server. Listeners are not to notice: before, the write is folded together with all later ones;
after, the later ones are folded over the new data of the server. The two ways agree for writes
that can be made again one after the other, up to the priority of a location that the write covers.
-/

namespace Replica

/-! ## Writes that can be made again -/

namespace Write

/-- The priority key does not occur in the locations of a write. -/
def AddressesData (write : Write) : Prop :=
  write.path.Unreserved ∧ ∀ single ∈ write.writes, single.1.Unreserved

/-- A write determines a location: it puts a node in place there or above. -/
def Covers (write : Write) (path : Path) : Prop :=
  ∃ single ∈ write.writes, Path.contains single.1 path = true

def acceptance (write : Write) : Operation :=
  .acknowledge write.path false write.overlay

private theorem not_covers_of_missed
    {write : Write} (valid : write.overlay.Valid) {path : Path}
    (missed : Sites.reaching? write.acceptance path = none) :
    ¬ write.Covers path := by
  rintro ⟨single, member, above⟩
  have acceptanceValid : write.acceptance.Valid := valid
  have beside := Overlay.outside_of_unseen
    (Engine.unseen_of_reaching? acceptanceValid missed) single member
  rw [above] at beside
  cases beside

section

variable {write : Write} (addressed : write.AddressesData)
  (valid : write.overlay.Valid) {path : Path} {relative : Operation}
  (reaches : Sites.reaching? write.acceptance path = some relative)

include addressed valid reaches

private theorem unreserved_of_mem_accepted :
    ∀ single ∈ relative.writes, single.1.Unreserved := by
  have acceptanceValid : write.acceptance.Valid := valid
  have shows := Sites.shows_of_reaching? acceptanceValid reaches
  intro seen member
  rw [shows.writes] at member
  obtain ⟨single, singleMember, isSeen⟩ := List.mem_filterMap.mp member
  exact Overlay.unreserved_of_seenFrom (addressed.2 single singleMember)
    isSeen

/-- A view computes everything anew exactly if the accepted write covers its location. -/
theorem covers_iff_scope :
    write.Covers path ↔ relative.scope = .all := by
  have acceptanceValid : write.acceptance.Valid := valid
  have shows := Sites.shows_of_reaching? acceptanceValid reaches
  have unreserved :=
    unreserved_of_mem_accepted addressed valid reaches
  constructor
  · rintro ⟨single, member, above⟩
    cases scope : relative.scope with
    | all => rfl
    | children keys =>
        have beside := View.outside_of_scope shows scope single member
        rw [above] at beside
        cases beside
  · intro scope
    obtain ⟨below, nodes, rfl, belowUnreserved⟩ :=
      Operation.acknowledge_of_relativeTo? addressed.1
        (Sites.reaching?_eq_some_iff.mp reaches).2
    obtain ⟨seen, seenMember, atRoot⟩ :=
      Operation.root_of_scope_all belowUnreserved unreserved scope
    have isSeen : seen ∈ write.acceptance.writes.filterMap
        (Overlay.seenFrom path) :=
      shows.writes ▸ seenMember
    obtain ⟨single, member, isSeen⟩ := List.mem_filterMap.mp isSeen
    refine ⟨single, member, ?_⟩
    rcases Overlay.seenFrom_cases isSeen with ⟨_, above⟩ | rfl
    · exact above
    · rw [atRoot, List.append_nil]
      exact Path.contains_self path

end

end Write

namespace Pending

/-- The visible writes can be made again one after the other: none of them addresses a priority,
and none deletes anything, unless it is the only one. -/
structure Replayable (pending : Pending) : Prop where
  addressed : ∀ write ∈ pending.writes, write.visible = true →
    write.AddressesData
  filled : (∀ write ∈ pending.visibleWrites, write.2.isEmpty = false) ∨
    (pending.writes.filter (·.visible)).length ≤ 1

variable {pending next : Pending} {path : Path} {data : Node}

private theorem apart_of_sole
    (sound : pending.Sound)
    (sole : (pending.writes.filter (·.visible)).length ≤ 1) :
    Sorted.Ascending pending.visibleWrites ∧
      ∀ upper ∈ pending.visibleWrites, ∀ lower ∈ pending.visibleWrites,
        Path.contains upper.1 lower.1 = true → upper = lower := by
  have valid (write : Write)
      (member : write ∈ pending.writes.filter (·.visible)) :=
    sound.valid write (List.mem_filter.mp member).1
  unfold visibleWrites
  generalize pending.writes.filter (·.visible) = shown at *
  cases shown with
  | nil =>
      exact ⟨List.Pairwise.nil, fun _ member => absurd member List.not_mem_nil⟩
  | cons write rest =>
      cases rest with
      | nil =>
          have isValid := valid write (List.mem_singleton_self write)
          rw [List.flatMap_singleton]
          exact ⟨isValid.ascending_writesBelow write.path,
            isValid.apart_of_mem_writesBelow write.path⟩
      | cons next others =>
          rw [List.length_cons, List.length_cons] at sole
          omega

/-- Writes that can be made again show what they give one after the other. -/
theorem Replayable.laidOver_eq
    (replayable : pending.Replayable) (sound : pending.Sound)
    (unreserved : path.Unreserved) (canonical : data.Canonical) :
    pending.laidOver path data ≈
      data.lay (pending.visibleWrites.filterMap (Overlay.seenFrom path)) := by
  have addressed : ∀ write ∈ pending.visibleWrites,
      write.1.Unreserved := by
    intro single member
    obtain ⟨write, writeMember, singleMember⟩ := List.mem_flatMap.mp member
    obtain ⟨isPending, isVisible⟩ := List.mem_filter.mp writeMember
    exact (replayable.addressed write isPending isVisible).2 single
      singleMember
  unfold laidOver
  rw [sound.overlay_eq]
  -- A single write may delete: its nodes are apart from one another, so nothing is folded.
  rcases replayable.filled with filled | sole
  · exact Overlay.apply_restrict_adds unreserved
      sound.canonical_of_mem_visibleWrites
      (fun write member =>
        ⟨addressed write member, fun _ => filled write member⟩) canonical
  · obtain ⟨ascending, apart⟩ := apart_of_sole sound sole
    rw [Overlay.apply_restrict_of_apart ascending apart
      sound.canonical_of_mem_visibleWrites addressed]

section

variable {oldest : Write} {later : List Write}
  (queue : pending.writes = oldest :: later)
  (isLater : next.writes = later)

include queue isLater

private theorem Replayable.remaining (replayable : pending.Replayable) :
    next.Replayable := by
  have sublist :
      (next.writes.filter (·.visible)).Sublist
        (pending.writes.filter (·.visible)) := by
    rw [isLater, queue]
    exact (List.sublist_cons_self oldest later).filter _
  refine ⟨fun write member => ?_, replayable.filled.imp ?_ ?_⟩
  · refine replayable.addressed write ?_
    rw [queue, ← isLater]
    exact List.mem_cons_of_mem oldest member
  · intro filled write member
    obtain ⟨whole, wholeMember, isSingle⟩ := List.mem_flatMap.mp member
    exact filled write
      (List.mem_flatMap.mpr ⟨whole, sublist.subset wholeMember, isSingle⟩)
  · exact sublist.length_le.trans

/-- What a location shows does not change when the oldest of such writes moves into the data of
the server. -/
theorem Replayable.laidOver_accepted
    (replayable : pending.Replayable) (sound : pending.Sound)
    (nextSound : next.Sound) (visible : oldest.visible = true)
    (unreserved : path.Unreserved) (canonical : data.Canonical) :
    pending.laidOver path data ≈
      next.laidOver path
        (data.lay (oldest.writes.filterMap (Overlay.seenFrom path))) := by
  have inOrder :
      pending.visibleWrites = oldest.writes ++ next.visibleWrites := by
    unfold visibleWrites
    rw [queue, isLater, List.filter_cons_of_pos visible, List.flatMap_cons]
  have oldestCanonical : ∀ write ∈ oldest.writes, write.2.Canonical :=
    Write.canonical_of_mem_writes
      (sound.valid oldest (queue ▸ List.mem_cons_self))
  have before := replayable.laidOver_eq sound unreserved canonical
  have after :=
    (replayable.remaining queue isLater).laidOver_eq nextSound unreserved
      (canonical.lay
        (@Overlay.canonical_of_mem_filterMap path _ oldestCanonical))
  rw [inOrder, List.filterMap_append, Node.lay_append] at before
  exact Setoid.trans before (Setoid.symm after)

end

end Pending

/-! ## Locations that are shown as a whole -/

namespace View

private theorem dataAfter_accepted
    {pending : Pending} {view : View} (fresh : view.Fresh pending)
    (keepsAll : view.query.selection.keepsAll = true)
    (complete : view.caches.server.complete = true)
    {write : Write} (addressed : write.AddressesData)
    (valid : write.overlay.Valid) {relative : Operation}
    (reaches : Sites.reaching? write.acceptance view.query.path =
      some relative) :
    view.dataAfter relative =
      view.caches.server.node.lay
        (write.writes.filterMap (Overlay.seenFrom view.query.path)) := by
  have acceptanceValid : write.acceptance.Valid := valid
  have shows := Sites.shows_of_reaching? acceptanceValid reaches
  have everything := Selection.filter_of_keepsAll keepsAll
  have unfiltered : view.caches.server.filtered = false := by
    rw [fresh.filtered, filter, everything]
    rfl
  have above : ∀ single ∈ relative.serverWrites,
      single.1.AtPriority = false := by
    intro single member
    have unreserved :=
      Write.unreserved_of_mem_accepted addressed valid reaches single
        (Operation.mem_writes_of_mem_serverWrites member)
    cases path : single.1 with
    | nil => rfl
    | cons key rest =>
        rw [path] at unreserved
        exact unreserved.head
  unfold dataAfter
  rw [filter, everything, Caches.node_receive complete unfiltered above,
    shows.serverWrites]
  rfl

section

variable {pending : Pending} (sound : pending.Sound) {view : View}
  (canonical : view.caches.Canonical) (fresh : view.Fresh pending)
  (shows : view.ShowsLeaves pending)
  (unreserved : view.query.path.Unreserved)
  (keepsAll : view.query.selection.keepsAll = true)
  (complete : view.caches.server.complete = true)

include sound canonical fresh shows unreserved keepsAll complete

/-- Where a pending write covers the location, a view shows what the pending writes give, except
perhaps the priority of the location itself. -/
theorem visible_same_iff_of_covered
    (covered : (pending.overlay.node? view.query.path).isSome = true) :
    view.caches.visible.node.same (pending.laidOver view.query.path
        view.caches.server.node) = true ↔
      Priority.orderOptional view.caches.visible.node.priority?
        (pending.laidOver view.query.path
          view.caches.server.node).priority? = .eq := by
  have wholeCanonical :=
    Pending.canonical_laidOver sound view.query.path canonical.server
  have leaves := shows (Overlay.plain_of_unreserved unreserved _)
  rw [Node.same_iff_of_children canonical.visible wholeCanonical
    (fun _ keyUnreserved => child_visible fresh sound canonical keepsAll
      complete keyUnreserved) leaves.shown]
  -- A leaf is left over only where no write covers the location.
  refine and_iff_left fun leftover => ?_
  have branch := ((Node.isEmpty_iff wholeCanonical).mp leftover.2).1
  have uncovered := (leaves.leftover leftover.1 branch).1
  rw [covered] at uncovered
  cases uncovered

private theorem visible_same_of_isEmpty
    (noData : view.caches.visible.node.isEmpty = true) :
    view.caches.visible.node ≈
      pending.laidOver view.query.path view.caches.server.node := by
  have wholeCanonical :=
    Pending.canonical_laidOver sound view.query.path canonical.server
  have leaves := shows (Overlay.plain_of_unreserved unreserved _)
  cases leaf : (pending.laidOver view.query.path
    view.caches.server.node).isLeaf with
  | true => exact leaves.shown leaf
  | false =>
      exact Node.equiv_of_isEmpty canonical.visible wholeCanonical noData
        leaf fun _ keyUnreserved => child_visible fresh sound canonical
          keepsAll complete keyUnreserved

variable {next : Pending} (nextSound : next.Sound) {oldest : Write}
  {later : List Write} (queue : pending.writes = oldest :: later)
  (isLater : next.writes = later) (visible : oldest.visible = true)
  (replayable : pending.Replayable) {relative : Operation}
  (reaches : Sites.reaching? oldest.acceptance view.query.path =
    some relative)

include nextSound queue isLater visible replayable reaches

/-- A view takes the acceptance of a write that can be made again without a change, unless the
write covers its location and the priority of the location is not the one that the pending writes
give. -/
theorem absorbs_iff_of_replayable :
    view.Absorbs pending next relative ↔
      (oldest.Covers view.query.path →
        Priority.orderOptional view.caches.visible.node.priority?
          (pending.laidOver view.query.path
            view.caches.server.node).priority? = .eq) := by
  have oldestMember : oldest ∈ pending.writes :=
    queue ▸ List.mem_cons_self
  have valid := sound.valid oldest oldestMember
  have addressed := replayable.addressed oldest oldestMember visible
  have covers_iff := Write.covers_iff_scope addressed valid reaches
  have same : pending.laidOver view.query.path view.caches.server.node ≈
      next.laidOver view.query.path (view.dataAfter relative) := by
    rw [dataAfter_accepted fresh keepsAll complete addressed valid reaches]
    exact replayable.laidOver_accepted queue isLater sound nextSound visible
      unreserved canonical.server
  constructor
  · intro absorbs covers
    have shown := absorbs.whole (Or.inl (covers_iff.mp covers))
    exact Node.priority?_congr (Setoid.trans shown (Setoid.symm same))
  · intro samePriority
    refine ⟨fun key _ => Node.child_congr same key, fun anew => ?_⟩
    refine Setoid.trans ?_ same
    rcases anew with touched | noData
    · obtain ⟨single, member, above⟩ := covers_iff.mpr touched
      have isVisible : single ∈ pending.visibleWrites :=
        List.mem_flatMap.mpr
          ⟨oldest, List.mem_filter.mpr ⟨oldestMember, visible⟩, member⟩
      exact (visible_same_iff_of_covered sound canonical fresh shows
        unreserved keepsAll complete
        (Pending.isSome_node?_of_covered sound isVisible above)).mpr
          (samePriority ⟨single, member, above⟩)
    · exact visible_same_of_isEmpty sound canonical fresh shows unreserved
        keepsAll complete noData

end

end View

/-! ## Acceptance by the engine -/

namespace Sites

/-- A view that is live before routing is there afterwards: as it was, or after the operation. -/
theorem Delivered.forward
    {pending : Pending} {operation : Operation} {sites next : Sites}
    {events : List Event}
    (delivered : Delivered pending operation sites next events)
    {path : Path} {identifier : String} {view : View}
    (found : sites.lookup? path identifier = some view) :
    (reaching? operation path = none ∧
        next.lookup? path identifier = some view) ∨
      ∃ relative, ∃ ancestor? : Option Node,
        reaching? operation path = some relative ∧
          (∀ ancestor ∈ ancestor?, ancestor.Canonical) ∧
          next.lookup? path identifier =
            some (view.after relative (pending.at path) ancestor?) := by
  obtain ⟨site, siteFound, viewFound⟩ := lookup?_eq_some_iff.mp found
  cases reaches : reaching? operation path with
  | none =>
      have still := (delivered.missed path (Or.inl reaches)).1
      exact Or.inl ⟨rfl, lookup?_eq_some_iff.mpr
        ⟨site, still.trans siteFound, viewFound⟩⟩
  | some relative =>
      obtain ⟨ancestor?, canonical, stored, _⟩ :=
        delivered.reached path relative site reaches siteFound
      refine Or.inr ⟨relative, ancestor?, rfl, canonical,
        lookup?_eq_some_iff.mpr ⟨_, stored, ?_⟩⟩
      exact Sorted.find?_of_mem (delivered.sound.site stored).ascending
        (List.mem_map.mpr
          ⟨_, Sorted.mem_of_find?_eq_some viewFound, rfl⟩)

end Sites

namespace Engine

/-- The server accepts a write, and no listener notices: no event is raised, and every view shows
what it showed before. -/
structure Unnoticed (engine : Engine) (id : WriteId) : Prop where
  silent : (engine.acknowledge id false).result = .ok []
  shown : ∀ path identifier view,
    engine.sites.lookup? path identifier = some view →
      ∃ after, (engine.acknowledge id false).engine.sites.lookup? path
          identifier = some after ∧
        view.caches.visible.node.same after.caches.visible.node = true

private theorem live_of_lookup?
    {engine : Engine} {path : Path} {identifier : String} {view : View}
    (found : engine.sites.lookup? path identifier = some view) :
    engine.Live path view := by
  obtain ⟨site, siteFound, viewFound⟩ :=
    Sites.lookup?_eq_some_iff.mp found
  exact ⟨site, identifier, Sorted.mem_of_find?_eq_some siteFound,
    Sorted.mem_of_find?_eq_some viewFound⟩

section

variable {engine : Engine} (sound : engine.Sound) {oldest : Write}
  {later : List Write}
  (queue : engine.pending.writes = oldest :: later)
  (visible : oldest.visible = true)

include sound queue visible

private theorem acknowledge_oldest :
    ∃ events next,
      engine.acknowledge oldest.id false = ⟨.ok events, next⟩ ∧
        next.pending.Sound ∧ next.pending.writes = later ∧
        Overlay.Turns engine.pending.overlay next.pending.overlay
          oldest.acceptance.writes ∧
        Sites.Delivered next.pending oldest.acceptance engine.sites
          next.sites events := by
  obtain ⟨pending, removed, isLater⟩ := Pending.remove_oldest queue
  have pendingSound := sound.pending.remove removed
  have valid : oldest.acceptance.Valid :=
    sound.pending.valid_of_remove removed
  let counted : Engine :=
    { engine with counters := engine.counters.countAnswer false }
  have countedSound : counted.sites.Sound := sound.sites
  obtain ⟨events, next, isReply, isPending, _, delivered, _⟩ :=
    run_ok countedSound valid pendingSound
  subst isPending
  refine ⟨events, next, ?_, pendingSound, isLater,
    Pending.turns_of_remove sound.pending removed, delivered⟩
  unfold acknowledge
  rw [removed]
  dsimp only
  rw [visible]
  exact isReply

variable (fresh : engine.Fresh)
  (whole : ∀ path view, engine.Live path view →
    view.query.selection.keepsAll = true ∧
      view.caches.server.complete = true)

include fresh whole

/-- The acceptance of the oldest write goes unnoticed exactly if every view that it reaches takes
it without a change. -/
theorem unnoticed_iff_absorbs :
    engine.Unnoticed oldest.id ↔
      ∀ path view relative, engine.Live path view →
        Sites.reaching? oldest.acceptance path = some relative →
          view.Absorbs engine.pending
            (engine.acknowledge oldest.id false).engine.pending relative := by
  obtain ⟨events, next, isReply, nextSound, _, turns, delivered⟩ :=
    acknowledge_oldest sound queue visible
  have valid : oldest.acceptance.Valid :=
    sound.pending.valid oldest (queue ▸ List.mem_cons_self)
  constructor
  · intro unnoticed path view relative live reaches
    obtain ⟨identifier, found⟩ := sound.lookup?_of_live live
    obtain ⟨keepsAll, complete⟩ := whole path view live
    obtain ⟨after, afterFound, same⟩ :=
      unnoticed.shown path identifier view found
    have viewSound := sound.sites.view found
    have viewFresh := fresh path identifier view found
    rw [isReply] at afterFound ⊢
    obtain rfl := viewSound.located
    rcases delivered.forward found with ⟨missed, _⟩ | taken
    · rw [reaches] at missed
      cases missed
    · obtain ⟨other, ancestor?, otherReaches, ancestorCanonical,
        otherFound⟩ := taken
      rw [reaches] at otherReaches
      cases otherReaches
      rw [otherFound] at afterFound
      cases afterFound
      exact View.absorbs_of_same_after viewFresh sound.pending nextSound
        viewSound.canonical keepsAll complete ancestorCanonical
        (Sites.shows_of_reaching? valid reaches) valid turns same
  · intro absorbs
    have unchanged (path : Path) (identifier : String) (view : View)
        (found : engine.sites.lookup? path identifier = some view)
        (relative : Operation)
        (reaches : Sites.reaching? oldest.acceptance path = some relative)
        (ancestor? : Option Node) :
        view.caches.visible.node ≈
          (view.after relative (next.pending.at path)
            ancestor?).caches.visible.node := by
      have live := live_of_lookup? found
      obtain ⟨keepsAll, complete⟩ := whole path view live
      have viewSound := sound.sites.view found
      have absorbed := absorbs path view relative live reaches
      rw [isReply] at absorbed
      obtain rfl := viewSound.located
      exact absorbed.same_after (fresh _ identifier view found)
        sound.pending nextSound viewSound.canonical keepsAll complete
        (Sites.shows_of_reaching? valid reaches)
    refine ⟨?_, fun path identifier view found => ?_⟩
    · rw [isReply]
      refine congrArg Except.ok (List.eq_nil_iff_forall_not_mem.mpr ?_)
      intro event member
      obtain ⟨relative, site, ancestor?, reaches, siteFound,
        ancestorCanonical, ⟨identifier, view⟩, viewMember, told, after,
        applied, isTold⟩ := delivered.tells member
      have siteSound := sound.sites.site siteFound
      have found : engine.sites.lookup? event.path identifier = some view :=
        Sites.lookup?_eq_some_iff.mpr ⟨site, siteFound,
          Sorted.find?_of_mem siteSound.ascending viewMember⟩
      have complete := View.visible_complete
        (fresh _ identifier view found)
        (whole _ view (live_of_lookup? found)).2
      have nothing := (siteSound.sound _ viewMember).silent nextSound
        ancestorCanonical (Sites.shows_of_reaching? valid reaches).valid
        (fun _ => complete)
        (unchanged _ identifier view found relative reaches ancestor?) applied
      rw [nothing] at isTold
      cases isTold
    · rw [isReply]
      rcases delivered.forward found with ⟨_, stays⟩ | taken
      · exact ⟨view, stays, Node.same_refl _⟩
      · obtain ⟨relative, ancestor?, reaches, _, taken⟩ := taken
        exact ⟨_, taken, unchanged path identifier view found relative
          reaches ancestor?⟩

end

/-- In every state that a run reaches, with views over complete data of the server that keep every
child, the acceptance of the oldest pending write goes unnoticed exactly if every view that it
reaches takes it without a change. If the visible pending writes can be made again one after the
other, that is so unless the write covers the location of a view and the priority shown for this
location is not the one that the pending writes give. -/
theorem accepted_unnoticed_iff
    (config : Config) (calls : List Call)
    (valid : ∀ call ∈ calls, call.Valid)
    {oldest : Write} {later : List Write}
    (queue : ((create config).after calls).pending.writes =
      oldest :: later)
    (visible : oldest.visible = true)
    (whole : ∀ path view, ((create config).after calls).Live path view →
      view.query.selection.keepsAll = true ∧
        view.caches.server.complete = true) :
    let engine := (create config).after calls
    let next := (engine.acknowledge oldest.id false).engine
    (engine.Unnoticed oldest.id ↔
      ∀ path view relative, engine.Live path view →
        Sites.reaching? oldest.acceptance path = some relative →
          view.Absorbs engine.pending next.pending relative) ∧
    (engine.pending.Replayable →
      (∀ path view, engine.Live path view → path.Unreserved) →
        (engine.Unnoticed oldest.id ↔
          ∀ path view, engine.Live path view → oldest.Covers path →
            Priority.orderOptional view.caches.visible.node.priority?
              (engine.pending.laidOver path
                view.caches.server.node).priority? = .eq)) := by
  intro engine next
  have sound : engine.Sound := (Sound.create config).after valid
  have fresh : engine.Fresh :=
    (fresh_create config).after (Sound.create config) valid
  have shows : engine.ShowsLeaves :=
    (showsLeaves_create config).after (fresh_create config)
      (Sound.create config) valid
  have unnoticed := unnoticed_iff_absorbs sound queue visible fresh whole
  refine ⟨unnoticed, fun replayable unreserved => unnoticed.trans ?_⟩
  obtain ⟨events, after, isReply, nextSound, isLater, _⟩ :=
    acknowledge_oldest sound queue visible
  have absorbs_iff {path : Path} {view : View} {relative : Operation}
      (live : engine.Live path view)
      (reaches : Sites.reaching? oldest.acceptance path =
        some relative) :
      view.Absorbs engine.pending after.pending relative ↔
        (oldest.Covers path →
          Priority.orderOptional view.caches.visible.node.priority?
            (engine.pending.laidOver path
              view.caches.server.node).priority? = .eq) := by
    obtain ⟨keepsAll, complete⟩ := whole path view live
    have pathUnreserved := unreserved path view live
    obtain ⟨identifier, found⟩ := sound.lookup?_of_live live
    have viewSound := sound.sites.view found
    obtain rfl := viewSound.located
    exact View.absorbs_iff_of_replayable sound.pending viewSound.canonical
      (fresh _ identifier view found)
      (shows _ identifier view found keepsAll complete) pathUnreserved
      keepsAll complete nextSound queue isLater visible replayable reaches
  change (∀ path view relative, engine.Live path view →
    Sites.reaching? oldest.acceptance path = some relative →
      view.Absorbs engine.pending
        (engine.acknowledge oldest.id false).engine.pending relative) ↔ _
  rw [isReply]
  constructor
  · intro absorbs path view live covers
    cases reaches : Sites.reaching? oldest.acceptance path with
    | none =>
        have oldestValid :=
          sound.pending.valid oldest (queue ▸ List.mem_cons_self)
        exact absurd covers (Write.not_covers_of_missed oldestValid reaches)
    | some relative =>
        exact (absorbs_iff live reaches).mp
          (absorbs path view relative live reaches) covers
  · intro samePriority path view relative live reaches
    exact (absorbs_iff live reaches).mpr (samePriority path view live)

/-- A local write below a child, and one of the child itself. -/
def belowThenChild : List Call :=
  [.register { path := [⟨"v"⟩] } (.all 1),
    .serverOverwrite [⟨"v"⟩]
      (.branch [(⟨"b"⟩, .ofScalar (.bool true))] none),
    .userOverwrite [⟨"v"⟩, ⟨"a"⟩, ⟨"x"⟩] (.ofScalar (.bool true)) 1 true,
    .userOverwrite [⟨"v"⟩, ⟨"a"⟩] (.ofScalar (.bool false)) 2 true]

theorem accepted_unnoticed_iff_below_then_child :
    let engine := (create { session := "" }).after belowThenChild
    engine.pending.writes.map (·.id) = [1, 2] ∧
      engine.pending.Replayable ∧ engine.Unnoticed 1 := by
  intro engine
  let oldest : Write :=
    ⟨1, [⟨"v"⟩, ⟨"a"⟩, ⟨"x"⟩], .overwrite (.ofScalar (.bool true)), true⟩
  let newest : Write :=
    ⟨2, [⟨"v"⟩, ⟨"a"⟩], .overwrite (.ofScalar (.bool false)), true⟩
  have queue : engine.pending.writes = [oldest, newest] := rfl
  have valid : ∀ call ∈ belowThenChild, call.Valid := by
    have canonical :
        (Node.branch [(⟨"b"⟩, .ofScalar (.bool true))] none).Canonical :=
      Node.Canonical.empty.setChild (Node.Canonical.ofScalar (.bool true))
        ⟨"b"⟩
    simp [belowThenChild, Call.Valid, Node.Canonical.ofScalar, canonical]
  have held : (((create { session := "" }).after
      belowThenChild).sites.all fun entry =>
        entry.1 == [⟨"v"⟩] && entry.2.all fun stored =>
          stored.2.query.selection.keepsAll &&
            stored.2.caches.server.complete) = true := by
    decide +kernel
  have live {path : Path} {view : View} (isLive : engine.Live path view) :
      path = [⟨"v"⟩] ∧ view.query.selection.keepsAll = true ∧
        view.caches.server.complete = true := by
    obtain ⟨site, identifier, siteMember, viewMember⟩ := isLive
    have here := List.all_eq_true.mp held _ siteMember
    rw [Bool.and_eq_true, beq_iff_eq] at here
    exact ⟨here.1, Bool.and_eq_true_iff.mp
      (List.all_eq_true.mp here.2 _ viewMember)⟩
  have visibleWrites : engine.pending.visibleWrites =
      [([⟨"v"⟩, ⟨"a"⟩, ⟨"x"⟩], .ofScalar (.bool true)),
        ([⟨"v"⟩, ⟨"a"⟩], .ofScalar (.bool false))] := rfl
  have replayable : engine.pending.Replayable := by
    refine ⟨fun write member _ => ?_, Or.inl ?_⟩
    · rw [queue] at member
      have addressed : ∀ write ∈ [oldest, newest], write.AddressesData := by
        simp [oldest, newest, Write.AddressesData, Write.writes,
          Write.overlay, Path.Unreserved, Key.isPriority, Key.priority]
      exact addressed write member
    · rw [visibleWrites]
      simp [Node.ofScalar, Node.isEmpty]
  refine ⟨rfl, replayable, ?_⟩
  have unnoticed :=
    (accepted_unnoticed_iff { session := "" } belowThenChild valid queue rfl
      fun path view isLive => (live isLive).2).2 replayable ?_
  · refine unnoticed.mpr fun path view isLive covers => ?_
    obtain ⟨single, member, above⟩ := covers
    have isSingle : single = ([⟨"v"⟩, ⟨"a"⟩, ⟨"x"⟩],
        .ofScalar (.bool true)) := List.mem_singleton.mp member
    rw [isSingle, (live isLive).1] at above
    cases above
  · intro path view isLive
    rw [(live isLive).1]
    simp [Path.Unreserved, Key.isPriority, Key.priority]

/-- A merge of a priority and of data for a child that does not exist. -/
def priorityBesideData : List Call :=
  [.register { path := [⟨"v"⟩] } (.all 1),
    .serverOverwrite [⟨"v"⟩]
      (.branch [(⟨"b"⟩, .ofScalar (.bool true))] none),
    .userMerge [⟨"v"⟩]
      (.ofWrites
        [([⟨"a"⟩, .priority], .ofScalar (.text "p")),
          ([⟨"a"⟩, ⟨"x"⟩], .ofScalar (.bool true))]) 1]

/-- When the server accepts the merge, the new child loses its priority. -/
theorem accepted_merge_noticed :
    let engine := (create { session := "" }).after priorityBesideData
    let next := (engine.acknowledge 1 false).engine
    let prioritized? (engine : Engine) : Option Bool :=
      (engine.sites.view? { path := [⟨"v"⟩] }).map fun view =>
        (view.caches.visible.node.child ⟨"a"⟩).priority?.isSome
    (∀ call ∈ priorityBesideData, call.Valid) ∧
      engine.pending.writes.map (fun write => (write.id, write.visible)) =
        [(1, true)] ∧
      (engine.sites.all fun entry => entry.2.all fun stored =>
        stored.2.query.selection.keepsAll &&
          stored.2.caches.server.complete) = true ∧
      prioritized? engine = some true ∧ prioritized? next = some false ∧
      ¬ engine.Unnoticed 1 := by
  intro engine next prioritized?
  have nodes : (Overlay.ofWrites
      [([⟨"a"⟩, .priority], .ofScalar (.text "p")),
        ([⟨"a"⟩, ⟨"x"⟩], .ofScalar (.bool true))]).Valid :=
    Overlay.Valid.ofWrites (by simp [Node.Canonical.ofScalar])
  have data :
      (Node.branch [(⟨"b"⟩, .ofScalar (.bool true))] none).Canonical :=
    Node.Canonical.empty.setChild (Node.Canonical.ofScalar (.bool true))
      ⟨"b"⟩
  have before : prioritized? engine = some true := by
    decide +kernel
  have after : prioritized? next = some false := by
    decide +kernel
  refine ⟨by simp [priorityBesideData, Call.Valid, nodes, data],
    by decide +kernel, by decide +kernel, before, after, ?_⟩
  intro unnoticed
  obtain ⟨view, found, present⟩ := Option.map_eq_some_iff.mp before
  obtain ⟨nextView, nextFound, absent⟩ := Option.map_eq_some_iff.mp after
  obtain ⟨other, otherFound, same⟩ :=
    unnoticed.shown [⟨"v"⟩] _ view found
  have isOther : some nextView = some other := nextFound.symm.trans otherFound
  cases isOther
  have samePriority :=
    Node.priority?_congr (Node.child_congr same ⟨"a"⟩)
  rw [Option.isSome_eq_false_iff, Option.isNone_iff_eq_none] at absent
  obtain ⟨priority, isPriority⟩ := Option.isSome_iff_exists.mp present
  rw [absent, isPriority] at samePriority
  cases samePriority

end Engine

end Replica
