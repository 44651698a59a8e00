import Mathlib
import Replica.Proofs.Engine.Fresh
import Replica.Proofs.Engine.Truth
import Replica.Proofs.View.Partial

/-!
# Children that a view knows in part

A view that leaves children out does not hold all data of the server at its location. As long as
all views stand at one location, nobody else can tell it the rest. What such a view shows under a
key is then what the pending writes give over the true data of the server, unless the writes reach
only below a child that the view does not hold: such a child may be shown as the writes alone.
-/

namespace Replica

/-! ## The children of a view -/

namespace View

/-- The view does not hold the child under a key, and visible writes reach below the child without
determining it. -/
def Partial (pending : Pending) (view : View) (key : Key) : Prop :=
  let path := view.query.path ++ [key]
  view.caches.server.node.hasChild key = false ∧
    (∀ write ∈ pending.visibleWrites, Path.contains write.1 path = false) ∧
    ∃ write ∈ pending.visibleWrites, Path.contains path write.1 = true

/-- Every child that a view shows is what the pending writes give over the view's copy of the data
of the server, or over the true data. -/
structure Pieced (pending : Pending) (truth : Node) (view : View) :
    Prop where
  reflects : view.Reflects truth
  complete : view.caches.server.complete = true
  children : ∀ key : Key, key.isPriority = false →
    (view.caches.visible.node.child key).isEmpty = false →
      view.caches.visible.node.child key ≈
          pending.laidOver (view.query.path ++ [key])
            (view.caches.server.node.child key) ∨
        view.caches.visible.node.child key ≈
          pending.laidOver (view.query.path ++ [key]) (truth.child key)

variable {pending : Pending} {truth : Node} {view : View}

private theorem Pieced.same_or_partial
    (pieced : view.Pieced pending truth) (sound : pending.Sound)
    (truthCanonical : truth.Canonical)
    (filtered : view.query.selection.keepsAll = false)
    {key : Key} (unreserved : key.isPriority = false)
    (present : (view.caches.visible.node.child key).isEmpty = false) :
    view.caches.visible.node.child key ≈
        (pending.laidOver view.query.path truth).child key ∨
      view.Partial pending key ∧
        view.caches.visible.node.child key ≈
          pending.laidOver (view.query.path ++ [key]) .empty := by
  have drops : view.filter.drops = true := drops_of_keepsAll filtered
  have copyCanonical := pieced.reflects.canonical
  have right {node : Node} (shown : node ≈
      pending.laidOver (view.query.path ++ [key]) (truth.child key)) :
      node ≈ (pending.laidOver view.query.path truth).child key :=
    Setoid.trans shown (Setoid.symm
      (Pending.child_laidOver sound view.query.path unreserved
        truthCanonical))
  rcases pieced.children key unreserved present with overCopy | overTruth
  · by_cases held :
        (view.caches.server.node.child key).isEmpty = false
    · refine Or.inl (right (Setoid.trans overCopy ?_))
      exact Pending.laidOver_congr sound sound (Setoid.refl _)
        (pieced.reflects.parts drops pieced.complete key unreserved held)
        (copyCanonical.child key) (truthCanonical.child key)
    · have absent : view.caches.server.node.child key = .empty :=
        (copyCanonical.child key).eq_empty (by simpa using held)
      rw [absent] at overCopy
      by_cases above : ∃ write ∈ pending.visibleWrites,
          Path.contains write.1 (view.query.path ++ [key]) = true
      · obtain ⟨write, member, isAbove⟩ := above
        refine Or.inl (right ?_)
        rw [← Pending.laidOver_of_covered sound member isAbove .empty]
        exact overCopy
      · have notAbove : ∀ write ∈ pending.visibleWrites,
            Path.contains write.1 (view.query.path ++ [key]) = false := by
          intro write member
          rw [Bool.eq_false_iff]
          exact fun isAbove => above ⟨write, member, isAbove⟩
        refine Or.inr ⟨⟨?_, notAbove, ?_⟩, overCopy⟩
        · rw [Node.hasChild_eq_not_isEmpty copyCanonical unreserved,
            absent]
          rfl
        · by_contra nothing
          have notBelow : ∀ write ∈ pending.visibleWrites,
              Path.contains (view.query.path ++ [key]) write.1 =
                false := by
            intro write member
            rw [Bool.eq_false_iff]
            exact fun isBelow => nothing ⟨write, member, isBelow⟩
          rw [Pending.laidOver_of_unreached sound notAbove notBelow]
            at overCopy
          exact Ledger.not_present_of_absent overCopy present
  · exact Or.inl (right overTruth)

/-! ## Operations -/

private theorem Pieced.child_kept
    (pieced : view.Pieced pending truth) (sound : pending.Sound)
    (truthCanonical : truth.Canonical)
    (filtered : view.query.selection.keepsAll = false)
    {key : Key} (unreserved : key.isPriority = false)
    (present : (view.caches.visible.node.child key).isEmpty = false)
    {next : Pending} (nextSound : next.Sound)
    (same : next.overlay.restrict (view.query.path ++ [key]) ≈
      pending.overlay.restrict (view.query.path ++ [key]))
    {copy trueChild : Node} (copyCanonical : copy.Canonical)
    (trueChildCanonical : trueChild.Canonical)
    (sameTruth : trueChild ≈ truth.child key)
    (gainless :
      (view.caches.server.node.child key).isEmpty = true →
        copy.isEmpty = true) :
    view.caches.visible.node.child key ≈
        next.laidOver (view.query.path ++ [key]) copy ∨
      view.caches.visible.node.child key ≈
        next.laidOver (view.query.path ++ [key]) trueChild := by
  have drops : view.filter.drops = true := drops_of_keepsAll filtered
  have oldCanonical := pieced.reflects.canonical.child key
  have overTruth {node : Node} (canonical : node.Canonical)
      (isTrue : node ≈ truth.child key) :
      pending.laidOver (view.query.path ++ [key]) node ≈
        next.laidOver (view.query.path ++ [key]) trueChild :=
    Pending.laidOver_congr sound nextSound (Setoid.symm same)
      (Setoid.trans isTrue (Setoid.symm sameTruth)) canonical
      trueChildCanonical
  -- A child computed from the copy stays so only if the copy still lacks it. If the copy holds it,
  -- the copy agrees with the true data, and from then on the child counts as computed from these.
  rcases pieced.children key unreserved present with overCopy | wasRight
  · by_cases held :
        (view.caches.server.node.child key).isEmpty = true
    · have noCopy := copyCanonical.eq_empty (gainless held)
      rw [oldCanonical.eq_empty held] at overCopy
      rw [noCopy]
      exact Or.inl (Setoid.trans overCopy
        (Pending.laidOver_congr sound nextSound (Setoid.symm same)
          (Setoid.refl _) Node.Canonical.empty Node.Canonical.empty))
    · have agrees :=
        pieced.reflects.parts drops pieced.complete key unreserved
          (by simpa using held)
      exact Or.inr
        (Setoid.trans overCopy (overTruth oldCanonical agrees))
  · exact Or.inr (Setoid.trans wasRight
      (overTruth (truthCanonical.child key) (Setoid.refl _)))

private theorem Pieced.kept
    {old : View} {next : Pending}
    (pieced : old.Pieced pending truth) (sound : pending.Sound)
    (nextSound : next.Sound) (truthCanonical : truth.Canonical)
    (filtered : old.query.selection.keepsAll = false)
    (query : view.query = old.query) (caches : view.caches = old.caches)
    {writes : List (Path × Node)}
    (writesCanonical : ∀ write ∈ writes, write.2.Canonical)
    (turns : Overlay.Turns pending.overlay next.overlay writes)
    (unseen : writes.filterMap (Overlay.seenFrom old.query.path) = []) :
    view.Pieced next truth := by
  have outside := Overlay.outside_of_unseen unseen
  have sameFilter : view.filter = old.filter := by
    unfold View.filter
    rw [query]
  refine ⟨?_, ?_, ?_⟩
  · unfold View.Reflects
    rw [caches, sameFilter]
    exact pieced.reflects
  · rw [caches]
    exact pieced.complete
  · intro key unreserved present
    rw [caches] at present ⊢
    rw [query]
    have unseenChild :
        writes.filterMap (Overlay.seenFrom (old.query.path ++ [key])) =
          [] := by
      rw [Overlay.filterMap_seenFrom_append, unseen]
      rfl
    exact pieced.child_kept sound truthCanonical filtered unreserved
      present nextSound
      (turns.restrict_child_of_unseen sound.overlay_valid writesCanonical
        outside unreserved unseenChild nextSound.overlay_valid)
      (pieced.reflects.canonical.child key) (truthCanonical.child key)
      (Setoid.refl _) id

section

variable {old : View} {next : Pending} (nextSound : next.Sound)
  (canonical : old.caches.Canonical)
  {relative : Operation} (valid : relative.Valid)

include nextSound canonical valid

/-- A child that a view shows after an operation was computed from its copy of the data of the
server, or it was shown before and is not touched. -/
theorem child_after_of_present
    (complete : (old.after relative (next.at old.query.path)
      none).caches.server.complete = true)
    {key : Key} (unreserved : key.isPriority = false)
    (present : ((old.after relative (next.at old.query.path)
      none).caches.visible.node.child key).isEmpty = false) :
    (old.after relative (next.at old.query.path)
        none).caches.visible.node.child key ≈
        next.laidOver (old.query.path ++ [key])
          ((old.after relative (next.at old.query.path)
            none).caches.server.node.child key) ∨
      ∃ keys, relative.scope = .children keys ∧ key ∉ keys ∧
        (old.after relative (next.at old.query.path)
          none).caches.visible.node.child key =
            old.caches.visible.node.child key :=
  @Caches.child_visibleAfter_of_present old.filter
    (next.at old.query.path) nextSound _
    (Caches.canonical_receive canonical.server valid old.filter) key
    unreserved complete _ canonical.visible relative.scope
    (fun _ scope => (Operation.covers_of_scope scope).1) present

private theorem pieced_after_root
    {data : Node} (dataCanonical : data.Canonical)
    (said : relative.serverWrites = [([], data)])
    (incomplete : relative.completes = false) :
    (old.after relative (next.at old.query.path) none).Pieced next
      data := by
  have received :
      Caches.receive old.filter old.caches relative =
        Caches.overwriteServer old.filter old.caches [] data := by
    rw [Caches.receive_of_incomplete _ _ incomplete, said]
    rfl
  have complete : (old.after relative (next.at old.query.path)
      none).caches.server.complete = true := by
    change (Caches.receive old.filter old.caches
      relative).server.complete = true
    rw [received, Caches.complete_overwriteServer]
    exact Bool.or_true _
  refine ⟨?_, complete, fun key unreserved present => ?_⟩
  · have reflects :=
      @Caches.reflects_select data data dataCanonical old.filter true
        old.caches.visible fun _ => Setoid.refl _
    have server : (Caches.receive old.filter old.caches relative).server =
        ⟨old.filter.select data, true, old.filter.drops⟩ := by
      rw [received]
      change Cache.mk _ (_ || true) _ = _
      rw [Bool.or_true]
      rfl
    change Caches.Reflects old.filter data
      ⟨_, (Caches.receive old.filter old.caches relative).server⟩
    rw [server]
    exact ⟨reflects.canonical, reflects.filtered, reflects.bare,
      reflects.whole, reflects.parts⟩
  · rcases child_after_of_present nextSound canonical valid complete
        unreserved present with computed | ⟨keys, scope, _⟩
    · exact Or.inl computed
    · have told : (([] : Path), data) ∈ relative.serverWrites := by
        rw [said]
        exact List.mem_singleton_self _
      obtain ⟨_, _, _, split⟩ :=
        (Operation.covers_serverWrites scope).2 _ told
      cases split

/-- A child that is not touched stays what it was, on both sides. -/
theorem Pieced.after
    (pieced : old.Pieced pending truth) (sound : pending.Sound)
    (truthCanonical : truth.Canonical)
    (filtered : old.query.selection.keepsAll = false)
    {operation : Operation} (operationValid : operation.Valid)
    (shows : operation.Shows relative old.query.path)
    (turns : Overlay.Turns pending.overlay next.overlay operation.writes)
    (incomplete : relative.completes = false)
    (writable : ∀ write ∈ relative.serverWrites, write.1.Writable) :
    (old.after relative (next.at old.query.path) none).Pieced next
      (truth.lay relative.serverWrites) := by
  have received :=
    Caches.receive_of_incomplete old.filter old.caches incomplete
  have toldCanonical := valid.canonical_of_mem_serverWrites
  have learned := pieced.reflects.learn truthCanonical toldCanonical writable
  have stillComplete :=
    Caches.complete_receive_of_complete pieced.complete old.filter relative
  have reflects : (old.after relative (next.at old.query.path)
      none).Reflects (truth.lay relative.serverWrites) := by
    rw [← received] at learned
    exact ⟨learned.canonical, learned.filtered, learned.bare,
      learned.whole, learned.parts⟩
  refine ⟨reflects, stillComplete, fun key unreserved present => ?_⟩
  rcases child_after_of_present nextSound canonical valid stillComplete
      unreserved present with computed | ⟨keys, scope, untouched, kept⟩
  · exact Or.inl computed
  · -- Neither the pending writes nor the data of the server change below an untouched child.
    have covers := Operation.covers_of_scope scope
    have sameOverlay :=
      turns.restrict_child_of_unseen sound.overlay_valid
        operationValid.canonical_of_mem_writes
        (outside_of_scope shows scope) unreserved
        (unseen_of_untouched shows scope untouched)
        nextSound.overlay_valid
    have sameTruth :
        (truth.lay relative.serverWrites).child key ≈ truth.child key := by
      have seen :=
        Node.descendant_lay truthCanonical
          (Path.unreserved_singleton unreserved) toldCanonical
      rw [Engine.unsaid_of_unseen (covers.unseen untouched)] at seen
      exact seen
    have gainless
        (absent : (old.caches.server.node.child key).isEmpty = true) :
        ((Caches.receive old.filter old.caches
          relative).server.node.child key).isEmpty = true := by
      rw [received]
      exact Caches.child_learn_of_absent pieced.reflects.canonical
        pieced.reflects.filtered toldCanonical
        (Operation.covers_serverWrites scope).2 unreserved untouched absent
    rw [kept] at present ⊢
    exact pieced.child_kept sound truthCanonical filtered unreserved
      present nextSound sameOverlay (reflects.canonical.child key)
      ((truthCanonical.lay toldCanonical).child key) sameTruth gainless

end

end View

namespace Sites

/-! ## Sites at one location -/

variable {sites : Sites} {path : Path}

/-- Where all sites stand at one location, no site above another one can tell it anything. -/
theorem serverNode?_of_here
    (here : ∀ entry ∈ sites, entry.1 = path) :
    sites.serverNode? path true = none := by
  refine List.findSome?_eq_none_iff.mpr fun entry member => ?_
  obtain ⟨location, site⟩ := entry
  have same : location = path := here _ member
  rw [same]
  simp

private theorem Sound.eq_nil_or_singleton
    (sound : sites.Sound) (here : ∀ entry ∈ sites, entry.1 = path) :
    sites = [] ∨ ∃ site, sites = [(path, site)] := by
  cases sites with
  | nil => exact Or.inl rfl
  | cons entry rest =>
      obtain ⟨location, site⟩ := entry
      obtain ⟨rfl, others⟩ := List.forall_mem_cons.mp here
      cases rest with
      | nil => exact Or.inr ⟨site, rfl⟩
      | cons next further =>
          have order :=
            List.rel_of_pairwise_cons sound.ascending List.mem_cons_self
          rw [others next List.mem_cons_self, Std.ReflOrd.compare_self]
            at order
          cases order

section

variable (sound : sites.Sound) (here : ∀ entry ∈ sites, entry.1 = path)
  {pending : Pending} (pendingSound : pending.Sound)
  {operation : Operation} (valid : operation.Valid)
  {events : List Event} {next : Sites}
  (routed : sites.route operation pending = .ok (events, next))

include sound here pendingSound valid routed

private theorem eq_of_route_of_here :
    next = match reaching? operation path with
      | some relative =>
          sites.map fun entry =>
            (entry.1, entry.2.after relative (pending.at path) none)
      | none => sites := by
  rcases sound.eq_nil_or_singleton here with rfl | ⟨site, rfl⟩
  · cases routed
    cases reaching? operation path with
    | none => rfl
    | some _ => rfl
  · have siteSound : site.Sound path := sound.sound _ List.mem_cons_self
    have unaided := serverNode?_of_here here
    unfold route at routed
    unfold reaching?
    cases concerned : concerns operation path with
    | false =>
        rw [List.map_singleton,
          List.filter_cons_of_neg (by simp [concerned])] at routed
        cases routed
        rfl
    | true =>
        rw [List.map_singleton, List.filter_cons_of_pos concerned,
          List.filter_nil] at routed
        dsimp only at routed
        rw [List.foldlM_cons] at routed
        unfold step at routed
        rw [if_pos rfl]
        cases reaches : operation.relativeTo? path with
        | none =>
            rw [reaches] at routed
            cases routed
            rfl
        | some relative =>
            have relativeValid :=
              (Operation.shows_of_relativeTo? valid reaches).valid
            obtain ⟨told, applied, _⟩ :=
              @Site.Sound.apply_ok site path siteSound (pending.at path)
                pendingSound none (fun _ member => by cases member) relative
                relativeValid
            rw [reaches, Sorted.find?_cons_self] at routed
            dsimp only at routed
            rw [unaided, applied] at routed
            cases routed
            simp [Sorted.insert, Std.ReflOrd.compare_self]

/-- The views at the location take what reaches it, without a word from above. -/
theorem view_of_route_of_here :
    (∀ entry ∈ next, entry.1 = path) ∧
      ∀ identifier view, next.lookup? path identifier = some view →
        (reaching? operation path = none ∧
            sites.lookup? path identifier = some view) ∨
          ∃ relative old, reaching? operation path = some relative ∧
            sites.lookup? path identifier = some old ∧
              view = old.after relative (pending.at path) none := by
  have result := eq_of_route_of_here sound here pendingSound valid routed
  cases reaches : reaching? operation path with
  | none =>
      rw [reaches] at result
      subst result
      exact ⟨here, fun _ _ found => Or.inl ⟨rfl, found⟩⟩
  | some relative =>
      rw [reaches] at result
      subst result
      refine ⟨?_, fun identifier view found => ?_⟩
      · intro entry member
        obtain ⟨old, oldMember, rfl⟩ := List.mem_map.mp member
        exact here old oldMember
      · obtain ⟨site, siteFound, viewFound⟩ :=
          lookup?_eq_some_iff.mp found
        obtain ⟨⟨location, oldSite⟩, oldMember, sameSite⟩ :=
          List.mem_map.mp (Sorted.mem_of_find?_eq_some siteFound)
        cases sameSite
        obtain ⟨⟨name, old⟩, viewMember, sameView⟩ :=
          List.mem_map.mp (Sorted.mem_of_find?_eq_some viewFound)
        cases sameView
        exact Or.inr ⟨relative, old, rfl,
          sound.lookup?_of_mem oldMember viewMember, rfl⟩

end

end Sites

/-- A call that attaches no listener and does not only announce that data is complete. -/
def Call.Feeds : Call → Prop
  | .register _ _ => False
  | .listenComplete _ => False
  | _ => True

private theorem Call.Feeds.completes
    {call : Call} (feeds : call.Feeds) : call.completes = false := by
  cases call with
  | listenComplete path => cases feeds
  | _ => rfl

namespace Engine

/-! ## Runs -/

/-- The true data of the server at a location after a run: one node that takes what is seen there
of all nodes that the calls put in place, in the order in which they do. -/
def truthAt (path : Path) : Engine → Node → List Call → Node
  | _, data, [] => data
  | engine, data, call :: rest =>
      truthAt path (engine.perform call).2
        (data.lay
          ((engine.serverWrites call).filterMap (Overlay.seenFrom path)))
        rest

/-- All views stand at one location, and those that leave children out show each child right as
far as they know it. -/
structure Pieced (engine : Engine) (path : Path) (truth : Node) :
    Prop where
  here : ∀ entry ∈ engine.sites, entry.1 = path
  canonical : truth.Canonical
  views : ∀ identifier view,
    engine.sites.lookup? path identifier = some view →
      view.query.selection.keepsAll = false →
        view.Pieced engine.pending truth

variable {engine : Engine} {path : Path} {truth : Node}

private theorem Pieced.perform
    (pieced : engine.Pieced path truth) (sound : engine.Sound)
    (writable : engine.Writable) {call : Call} (valid : call.Valid)
    (feeds : call.Feeds) (callWritable : call.Writable) :
    (engine.perform call).2.Pieced path
      (truth.lay ((engine.serverWrites call).filterMap
        (Overlay.seenFrom path))) := by
  have course := course_perform sound valid
  have nextSound := sound.perform valid
  have canonical :=
    @Overlay.canonical_of_mem_filterMap path _
      course.canonical_serverWrites
  have writes := writable.serverWrites callWritable
  generalize engine.perform call = outcome at course nextSound ⊢
  cases course with
  | quiet sites _ overlay _ unsaid =>
      rw [unsaid, List.filterMap_nil, Node.lay_nil]
      refine ⟨?_, pieced.canonical, fun identifier view found filtered => ?_⟩
      · dsimp only
        rw [sites]
        exact pieced.here
      · dsimp only at found
        rw [sites] at found
        exact (pieced.views identifier view found filtered).kept
          sound.pending nextSound.pending pieced.canonical filtered rfl rfl
          (fun _ member => absurd member List.not_mem_nil) (.kept overlay)
          rfl
  | narrowed pending narrows unsaid =>
      rw [unsaid, List.filterMap_nil, Node.lay_nil]
      refine ⟨?_, pieced.canonical, fun identifier view found filtered => ?_⟩
      · intro entry member
        obtain ⟨old, oldMember, same⟩ := narrows.locations entry member
        rw [← same]
        exact pieced.here old oldMember
      · obtain ⟨old, oldFound, query, caches, _⟩ :=
          narrows.views path identifier view found
        rw [query] at filtered
        exact (pieced.views identifier old oldFound filtered).kept
          sound.pending nextSound.pending pieced.canonical filtered query
          caches (fun _ member => absurd member List.not_mem_nil)
          (.kept (congrArg Pending.overlay pending)) rfl
  | joined isCall _ _ _ _ _ =>
      subst isCall
      cases feeds
  | @routed operation events next operationValid pending turns _ said
      completes _ routed =>
      obtain ⟨here, views⟩ :=
        Sites.view_of_route_of_here sound.sites pieced.here pending
          operationValid routed
      refine ⟨here, pieced.canonical.lay canonical,
        fun identifier view found filtered => ?_⟩
      rcases views identifier view found with
        ⟨missed, oldFound⟩ | ⟨relative, old, reaches, oldFound, rfl⟩
      · have hidden := unseen_of_reaching? operationValid missed
        have oldPieced := pieced.views identifier view oldFound filtered
        have located := (sound.sites.view oldFound).located
        rw [← said, unsaid_of_unseen hidden, Node.lay_nil]
        rw [← located] at hidden
        exact oldPieced.kept sound.pending nextSound.pending
          pieced.canonical filtered rfl rfl
          operationValid.canonical_of_mem_writes turns hidden
      · have shows := Sites.shows_of_reaching? operationValid reaches
        have oldSound := sound.sites.view oldFound
        obtain rfl := oldSound.located
        have oldPieced := pieced.views identifier old oldFound filtered
        have told := shows.serverWrites
        rw [said] at told
        rw [← told]
        refine oldPieced.after nextSound.pending oldSound.canonical
          shows.valid sound.pending pieced.canonical filtered operationValid
          shows turns
          ((shows.completes.trans completes).trans feeds.completes) ?_
        intro write member
        rw [told] at member
        obtain ⟨whole, wholeMember, isSeen⟩ := List.mem_filterMap.mp member
        exact Overlay.writable_of_seenFrom (writes whole wholeMember) isSeen

private theorem Pieced.after
    (pieced : engine.Pieced path truth) (sound : engine.Sound)
    (writable : engine.Writable) {calls : List Call}
    (valid : ∀ call ∈ calls, call.Valid)
    (feeds : ∀ call ∈ calls, call.Feeds)
    (callsWritable : ∀ call ∈ calls, call.Writable) :
    (engine.after calls).Pieced path (engine.truthAt path truth calls) := by
  induction calls generalizing engine truth with
  | nil => exact pieced
  | cons call rest inductionHypothesis =>
      obtain ⟨first, others⟩ := List.forall_mem_cons.mp valid
      obtain ⟨firstFeeds, otherFeeds⟩ := List.forall_mem_cons.mp feeds
      obtain ⟨firstWritable, otherWritable⟩ :=
        List.forall_mem_cons.mp callsWritable
      exact inductionHypothesis
        (pieced.perform sound writable first firstFeeds firstWritable)
        (sound.perform first) (writable.perform sound first firstWritable)
        others otherFeeds otherWritable

/-- Data of the server for the location of all views is what they show from then on. -/
theorem pieced_of_overwrite
    (sound : engine.Sound) (here : ∀ entry ∈ engine.sites, entry.1 = path)
    {data : Node} (canonical : data.Canonical) :
    (engine.perform (.serverOverwrite path data)).2.Pieced path data := by
  have valid : (Call.serverOverwrite path data).Valid := canonical
  have course := course_perform sound valid
  have nextSound := sound.perform valid
  have said : engine.serverWrites (.serverOverwrite path data) =
      [(path, data)] := rfl
  have seen : Overlay.seenFrom path (path, data) = some ([], data) := by
    have below := Overlay.seenFrom_below path [] data
    rw [List.append_nil] at below
    exact below
  generalize engine.perform (.serverOverwrite path data) = outcome
    at course nextSound ⊢
  cases course with
  | quiet _ _ _ _ unsaid => cases unsaid
  | narrowed _ _ unsaid => cases unsaid
  | joined isCall _ _ _ _ _ => cases isCall
  | @routed operation events next operationValid pending turns _ told
      completes _ routed =>
      obtain ⟨nextHere, views⟩ :=
        Sites.view_of_route_of_here sound.sites here pending operationValid
          routed
      refine ⟨nextHere, canonical, fun identifier view found _ => ?_⟩
      rcases views identifier view found with
        ⟨missed, _⟩ | ⟨relative, old, reaches, oldFound, rfl⟩
      · have hidden :=
          unsaid_of_unseen (unseen_of_reaching? operationValid missed)
        rw [told, said, List.filterMap_cons, seen] at hidden
        cases hidden
      · have shows := Sites.shows_of_reaching? operationValid reaches
        have oldSound := sound.sites.view oldFound
        obtain rfl := oldSound.located
        have atRoot : relative.serverWrites = [([], data)] := by
          rw [shows.serverWrites, told, said, List.filterMap_cons, seen]
          rfl
        exact View.pieced_after_root nextSound.pending oldSound.canonical
          shows.valid canonical atRoot (shows.completes.trans completes)

/-- All views stand at one location, the server sends its data there, and calls follow that bring
more data, or local writes and the answers to them. Then every child that a view with bounds or a
limit shows is the one that the visible pending writes give over the true data of the server, or
the view does not hold the child, visible pending writes reach below it without determining it,
and it is shown as these writes give it over nothing. -/
theorem filtered_child_right_or_partial
    (config : Config) (before calls : List Call) {path : Path} {data : Node}
    (valid : ∀ call ∈ before ++ .serverOverwrite path data :: calls,
      call.Valid)
    (writable : ∀ call ∈ before ++ .serverOverwrite path data :: calls,
      call.Writable)
    (feeds : ∀ call ∈ calls, call.Feeds)
    (here : ∀ entry ∈ ((create config).after before).sites, entry.1 = path)
    {view : View}
    (live : ((create config).after
      (before ++ .serverOverwrite path data :: calls)).Live path view)
    (filtered : view.query.selection.keepsAll = false) :
    let first := (((create config).after before).perform
      (.serverOverwrite path data)).2
    let pending := (first.after calls).pending
    let truth := first.truthAt path data calls
    ∀ entry ∈ view.caches.visible.node.children,
      entry.2.same ((pending.laidOver path truth).child entry.1) = true ∨
        view.Partial pending entry.1 ∧
          entry.2.same (pending.laidOver (path ++ [entry.1]) .empty) =
            true := by
  intro first pending truth entry member
  obtain ⟨validBefore, validRun⟩ := List.forall_mem_append.mp valid
  obtain ⟨validFirst, validCalls⟩ := List.forall_mem_cons.mp validRun
  obtain ⟨writableBefore, writableRun⟩ := List.forall_mem_append.mp writable
  obtain ⟨writableFirst, writableCalls⟩ :=
    List.forall_mem_cons.mp writableRun
  have startSound := (Sound.create config).after validBefore
  have startWritable :=
    (writable_create config).after (Sound.create config) validBefore
      writableBefore
  have firstSound := startSound.perform validFirst
  have pieced :=
    (pieced_of_overwrite startSound here validFirst).after firstSound
      (startWritable.perform startSound validFirst writableFirst) validCalls
      feeds writableCalls
  have sound := firstSound.after validCalls
  rw [after_append] at live
  obtain ⟨identifier, found⟩ := sound.lookup?_of_live live
  have viewSound := sound.sites.view found
  obtain rfl := viewSound.located
  have canonical := viewSound.canonical.visible
  have unreserved := canonical.unreserved_of_mem_children member
  have isChild := Node.child_of_mem_children canonical member
  have shown :=
    (pieced.views identifier view found filtered).same_or_partial
      sound.pending pieced.canonical filtered unreserved (by
        rw [isChild]
        exact canonical.nonempty_of_mem_children member)
  rw [isChild] at shown
  exact shown

def firstChild : Query :=
  { path := [⟨"v"⟩], selection := { index := .key, limit? := some (.first 1) } }

/-- Two children, of which only the first is within the query. -/
def unseenSibling : Node :=
  .branch [(⟨"a"⟩, .ofScalar (.bool true)),
    (⟨"b"⟩, .branch [(⟨"x"⟩, .ofScalar (.bool true))] none)] none

/-- A local write below the child that is not shown, and one that deletes the other child. -/
def writeThenEvict : List Call :=
  [.userOverwrite [⟨"v"⟩, ⟨"b"⟩, ⟨"y"⟩] (.ofScalar (.bool true)) 1 true,
    .userOverwrite [⟨"v"⟩, ⟨"a"⟩] .empty 2 true]

theorem filtered_child_right_or_partial_write_then_evict :
    let calls := .serverOverwrite firstChild.path unseenSibling ::
      writeThenEvict
    let first := (((create { session := "" }).after
      [.register firstChild (.all 1)]).perform
        (.serverOverwrite firstChild.path unseenSibling)).2
    let pending := (first.after writeThenEvict).pending
    let truth := first.truthAt firstChild.path unseenSibling writeThenEvict
    ∃ view,
      ((create { session := "" }).after
          ([.register firstChild (.all 1)] ++ calls)).Live firstChild.path
          view ∧
        view.query.selection.keepsAll = false ∧
        ∀ entry ∈ view.caches.visible.node.children,
          entry.2.same
              ((pending.laidOver firstChild.path truth).child entry.1) =
            true ∨
          view.Partial pending entry.1 ∧
            entry.2.same (pending.laidOver (firstChild.path ++ [entry.1])
              .empty) = true := by
  intro calls first pending truth
  have canonical : unseenSibling.Canonical :=
    (Node.Canonical.empty.setChild (Node.Canonical.ofScalar (.bool true))
      ⟨"a"⟩).setChild
        (Node.Canonical.empty.setChild (Node.Canonical.ofScalar (.bool true))
          ⟨"x"⟩) ⟨"b"⟩
  have valid : ∀ call ∈ [.register firstChild (.all 1)] ++ calls,
      call.Valid := by
    simp [calls, writeThenEvict, Call.Valid, Node.Canonical.ofScalar,
      Node.Canonical.empty, canonical]
  have writable : ∀ call ∈ [.register firstChild (.all 1)] ++ calls,
      call.Writable := by
    simp [calls, writeThenEvict, firstChild, Call.Writable, Path.Writable,
      Path.Unreserved, Key.isPriority, Key.priority]
  have feeds : ∀ call ∈ writeThenEvict, call.Feeds := by
    simp [writeThenEvict, Call.Feeds]
  have here : ∀ entry ∈ ((create { session := "" }).after
      [.register firstChild (.all 1)]).sites,
      entry.1 = firstChild.path := by
    intro entry member
    have locations :
        ((create { session := "" }).after
          [.register firstChild (.all 1)]).sites.map (·.1) =
            [firstChild.path] := by
      cbv
    exact List.mem_singleton.mp (locations ▸ List.mem_map_of_mem member)
  have held :
      (((create { session := "" }).after
          ([.register firstChild (.all 1)] ++ calls)).sites.view?
            firstChild).map (·.query.selection.keepsAll) = some false := by
    cbv
  obtain ⟨view, found, filtered⟩ := Option.map_eq_some_iff.mp held
  have live := live_of_view? found
  exact ⟨view, live, filtered,
    filtered_child_right_or_partial _ _ writeThenEvict valid writable feeds
      here live filtered⟩

/-- The child that slides into the window is shown as the local write alone, although the server
has more data there. -/
theorem filtered_child_misses_server_data :
    let first := (((create { session := "" }).after
      [.register firstChild (.all 1)]).perform
        (.serverOverwrite firstChild.path unseenSibling)).2
    let now := first.after writeThenEvict
    let truth := first.truthAt firstChild.path unseenSibling writeThenEvict
    (now.sites.view? firstChild).map (fun view =>
        view.caches.visible.node.children.map fun entry =>
          (entry.1, entry.2.dataEq
            ((now.pending.laidOver firstChild.path truth).child entry.1))) =
      some [(⟨"b"⟩, false)] := by
  cbv

end Engine

end Replica
