import Mathlib
import Replica.Proofs.Engine.BottomUp
import Replica.Proofs.Engine.Hidden
import Replica.Proofs.Node.Read

/-!
# The turns of sites and events

Routing asks the sites one after the other, none after a site below it. A site is given the
server's data of the sites above it, and as those had their turn before, this is what they hold
when all is done. The events come the other way round: those of one location stand together, and
those of everything below it stand before them.
-/

namespace Replica

namespace Sites

variable {pending : Pending} {operation : Operation}

/-! ## One turn -/

/-- A site takes an operation with the data of the sites above it as given, is stored, and raises
events. -/
inductive Turn (pending : Pending) (operation : Operation)
    (ancestor? : Option Node) (sites next : Sites) (path : Path)
    (events : List Event) : Prop where
  | taken {relative : Operation} {site after : Site}
      (reaches : operation.relativeTo? path = some relative)
      (found : Sorted.find? path sites = some site)
      (applied : site.apply relative (pending.at path) ancestor? =
        .ok (events, after))
      (stored : Sorted.find? path next = some after)

theorem Turn.congr
    {ancestor? : Option Node} {sites next before after : Sites}
    {path : Path} {events : List Event}
    (turn : Turn pending operation ancestor? sites next path events)
    (same : Sorted.find? path before = Sorted.find? path sites)
    (kept : Sorted.find? path after = Sorted.find? path next) :
    Turn pending operation ancestor? before after path events := by
  obtain ⟨reaches, found, applied, stored⟩ := turn
  exact .taken reaches (same.trans found) applied (kept.trans stored)

/-- A step that succeeds leaves everything as it was, or it is the turn of a site. -/
theorem step_cases
    {routed next : Routed} {path : Path}
    (stepped : step operation pending routed path = .ok next) :
    (next = routed ∧ (operation.relativeTo? path = none ∨
        Sorted.find? path routed.sites = none)) ∨
      ∃ events after,
        next = ⟨Sorted.insert path after routed.sites,
            routed.raised ++ [(path, events)]⟩ ∧
          Turn pending operation (routed.sites.serverNode? path true)
            routed.sites next.sites path events := by
  unfold step at stepped
  cases reaches : operation.relativeTo? path with
  | none =>
      rw [reaches] at stepped
      cases stepped
      exact Or.inl ⟨rfl, Or.inl rfl⟩
  | some relative =>
      cases found : Sorted.find? path routed.sites with
      | none =>
          rw [reaches, found] at stepped
          cases stepped
          exact Or.inl ⟨rfl, Or.inr rfl⟩
      | some site =>
          rw [reaches, found] at stepped
          dsimp only at stepped
          cases applied : site.apply relative (pending.at path)
              (routed.sites.serverNode? path true) with
          | error failure =>
              rw [applied] at stepped
              cases stepped
          | ok answer =>
              obtain ⟨events, after⟩ := answer
              rw [applied] at stepped
              cases stepped
              exact Or.inr ⟨events, after, rfl,
                .taken reaches found applied
                  (Sorted.find?_insert_self _ _ _)⟩

/-- What a site strictly above a location knows of the server's data there. -/
def fromAbove? (path : Path) (entry : Path × Site) : Option Node :=
  if entry.1 == path then none
  else (Path.below? path entry.1).bind entry.2.serverNode?

private theorem serverNode?_strictly (sites : Sites) (path : Path) :
    sites.serverNode? path true = sites.findSome? (fromAbove? path) :=
  rfl

private theorem fromAbove?_elsewhere
    {path other : Path}
    (elsewhere : other = path ∨ Path.contains other path = false)
    (site : Site) : fromAbove? path (other, site) = none := by
  unfold fromAbove?
  rcases elsewhere with rfl | outside
  · exact if_pos (beq_self_eq_true other)
  · rw [Path.below?_eq_none_iff.mpr outside]
    exact ite_self none

/-- What is known strictly above a location does not depend on the sites elsewhere. -/
theorem serverNode?_insert
    {path other : Path}
    (elsewhere : other = path ∨ Path.contains other path = false)
    (site : Site) (sites : Sites) :
    serverNode? (Sorted.insert other site sites) path true =
      sites.serverNode? path true := by
  have silent := fromAbove?_elsewhere elsewhere
  rw [serverNode?_strictly, serverNode?_strictly]
  induction sites with
  | nil => rw [Sorted.insert, List.findSome?_cons, silent]
  | cons entry rest inductionHypothesis =>
      obtain ⟨head, stored⟩ := entry
      unfold Sorted.insert
      split
      · rw [List.findSome?_cons, silent]
      · rename_i equal
        cases Std.LawfulEqOrd.eq_of_compare equal
        rw [List.findSome?_cons, silent, List.findSome?_cons, silent]
      · rw [List.findSome?_cons, List.findSome?_cons, inductionHypothesis]

/-! ## All turns -/

/-- A lookup that no turn at one of the locations changes is the same after all turns. -/
theorem eq_of_foldlM_step
    {α : Type} (look : Sites → α) {targets : List Path}
    (still : ∀ target ∈ targets, ∀ site sites,
      look (Sorted.insert target site sites) = look sites)
    {routed final : Routed}
    (folded : targets.foldlM (step operation pending) routed = .ok final) :
    look final.sites = look routed.sites := by
  induction targets generalizing routed with
  | nil =>
      cases folded
      rfl
  | cons first rest inductionHypothesis =>
      obtain ⟨here, elsewhere⟩ := List.forall_mem_cons.mp still
      rw [List.foldlM_cons] at folded
      obtain ⟨next, stepped, later⟩ := bind_eq_ok folded
      have afterwards := inductionHypothesis elsewhere later
      rcases step_cases stepped with ⟨rfl, _⟩ | ⟨_, after, rfl, _⟩
      · exact afterwards
      · exact afterwards.trans (here after routed.sites)

/-- Turns at locations that are not above a site do not change what the site has seen in its own
turn. -/
theorem turn_of_later
    {first : Path} {rest : List Path}
    (notAbove : ∀ later ∈ rest, Path.contains later first = false)
    {routed final : Routed} {after : Site} {events : List Event}
    (turn : Turn pending operation (routed.sites.serverNode? first true)
      routed.sites (Sorted.insert first after routed.sites) first events)
    (folded : rest.foldlM (step operation pending)
      ⟨Sorted.insert first after routed.sites,
        routed.raised ++ [(first, events)]⟩ = .ok final) :
    Turn pending operation (final.sites.serverNode? first true)
      routed.sites final.sites first events := by
  have stored :
      Sorted.find? first final.sites =
        Sorted.find? first (Sorted.insert first after routed.sites) :=
    eq_of_foldlM_step (Sorted.find? first ·)
      (fun target member site sites =>
        Sorted.find?_insert_of_ne site
          (Path.ne_of_not_contains (notAbove target member)).symm sites)
      folded
  have laterAbove :
      final.sites.serverNode? first true =
        serverNode? (Sorted.insert first after routed.sites) first true :=
    eq_of_foldlM_step (serverNode? · first true)
      (fun target member site sites =>
        serverNode?_insert (Or.inr (notAbove target member)) site sites)
      folded
  have above :
      final.sites.serverNode? first true =
        routed.sites.serverNode? first true :=
    laterAbove.trans (serverNode?_insert (Or.inl rfl) after routed.sites)
  rw [above]
  exact turn.congr rfl stored

/-- Asked one after the other and none after a location below it, the sites have their turns in
that order, each with the data that the sites above it hold in the end. -/
theorem turns_of_foldlM_step
    {targets : List Path}
    (downward : targets.Pairwise fun earlier later =>
      Path.contains later earlier = false)
    {routed final : Routed}
    (folded : targets.foldlM (step operation pending) routed = .ok final) :
    ∃ raised,
      final.raised = routed.raised ++ raised ∧
        (raised.map (·.1)).Sublist targets ∧
        (∀ entry ∈ raised,
          Turn pending operation (final.sites.serverNode? entry.1 true)
            routed.sites final.sites entry.1 entry.2) ∧
        ∀ path ∈ targets, path ∈ raised.map (·.1) ∨
          operation.relativeTo? path = none ∨
            Sorted.find? path routed.sites = none := by
  induction targets generalizing routed with
  | nil =>
      cases folded
      exact ⟨[], (List.append_nil _).symm, List.Sublist.refl _,
        fun _ member => absurd member List.not_mem_nil,
        fun _ member => absurd member List.not_mem_nil⟩
  | cons first rest inductionHypothesis =>
      obtain ⟨notAbove, restDownward⟩ := List.pairwise_cons.mp downward
      rw [List.foldlM_cons] at folded
      obtain ⟨next, stepped, later⟩ := bind_eq_ok folded
      obtain ⟨raised, appended, ordered, turns, reached⟩ :=
        inductionHypothesis restDownward later
      have different : ∀ target ∈ rest, target ≠ first :=
        fun target member => Path.ne_of_not_contains (notAbove target member)
      rcases step_cases stepped with
        ⟨rfl, missed⟩ | ⟨events, after, rfl, turn⟩
      · refine ⟨raised, appended, ordered.cons first, turns, ?_⟩
        exact List.forall_mem_cons.mpr ⟨Or.inr missed, reached⟩
      · -- The later turns start from sites that differ at the first location only.
        have before : ∀ path, path ≠ first →
            Sorted.find? path
                (Sorted.insert first after routed.sites) =
              Sorted.find? path routed.sites :=
          fun _ unequal => Sorted.find?_insert_of_ne after unequal _
        refine ⟨(first, events) :: raised, ?_, ordered.cons_cons first,
          List.forall_mem_cons.mpr ⟨?_, ?_⟩,
          List.forall_mem_cons.mpr ⟨?_, ?_⟩⟩
        · rw [appended, List.append_assoc]
          rfl
        · exact turn_of_later notAbove turn later
        · intro entry member
          have target :=
            ordered.subset (List.mem_map_of_mem member)
          exact (turns entry member).congr
            (before entry.1 (different entry.1 target)).symm rfl
        · exact Or.inl List.mem_cons_self
        · intro path member
          rw [← before path (different path member)]
          exact (reached path member).imp_left (List.mem_cons_of_mem _)

/-- The sites that an operation reaches have their turns from the top down. -/
structure TopDown (pending : Pending) (operation : Operation)
    (sites next : Sites) (raised : List (Path × List Event)) : Prop where
  /-- The sites are asked in the order in which their events are kept. -/
  folded : ((sites.map (·.1)).filter (concerns operation)).foldlM
    (step operation pending) ⟨sites, []⟩ = .ok ⟨next, raised⟩
  /-- No site has its turn before a site above it. -/
  downward : raised.Pairwise fun earlier later =>
    Path.contains later.1 earlier.1 = false
  /-- The sites that have a turn are those that the operation reaches. -/
  reached : ∀ path, path ∈ raised.map (·.1) ↔
    (reaching? operation path).isSome = true ∧
      (Sorted.find? path sites).isSome = true
  /-- In its turn a site sees the sites above it as they are in the end. -/
  turns : ∀ entry ∈ raised,
    Turn pending operation (next.serverNode? entry.1 true) sites next
      entry.1 entry.2

/-- In ascending order no location stands before one above it. -/
theorem downward_of_ascending
    {sites : Sites} (ascending : Sorted.Ascending sites) :
    (sites.map (·.1)).Pairwise fun earlier later =>
      Path.contains later earlier = false := by
  refine List.pairwise_map.mpr (ascending.imp ?_)
  intro earlier later before
  have behind : compare later.1 earlier.1 = .gt :=
    Std.OrientedCmp.gt_of_lt before
  have different : later.1 ≠ earlier.1 := by
    intro same
    rw [same, Std.ReflOrd.compare_self] at behind
    cases behind
  rw [Bool.eq_false_iff]
  intro contained
  rw [Path.compare_of_contains contained different] at behind
  cases behind

private theorem topDown_of_route
    {sites next : Sites} (sound : sites.Sound) {events : List Event}
    (routed : sites.route operation pending = .ok (events, next)) :
    ∃ raised, TopDown pending operation sites next raised ∧
      events = (raised.mergeSort fun a b => bottomUp a.1 b.1 != .gt).flatMap
        (·.2) := by
  obtain ⟨final, folded, answered⟩ := bind_eq_ok routed
  cases answered
  have downward := (downward_of_ascending sound.ascending).filter
    (concerns operation)
  obtain ⟨raised, appended, ordered, turns, complete⟩ :=
    turns_of_foldlM_step downward folded
  rw [List.nil_append] at appended
  subst appended
  refine ⟨_, ⟨folded, ?_, ?_, turns⟩, rfl⟩
  · exact List.pairwise_map.mp (downward.sublist ordered)
  · intro path
    constructor
    · intro member
      have target := ordered.subset member
      obtain ⟨stored, concerned⟩ := (mem_targets_iff sound).mp target
      obtain ⟨entry, isEntry, rfl⟩ := List.mem_map.mp member
      obtain ⟨reaches, _, _, _⟩ := turns entry isEntry
      rw [reaching?_eq_some_iff.mpr ⟨concerned, reaches⟩]
      exact ⟨rfl, stored⟩
    · rintro ⟨reaching, stored⟩
      obtain ⟨relative, reaches⟩ := Option.isSome_iff_exists.mp reaching
      obtain ⟨concerned, relates⟩ := reaching?_eq_some_iff.mp reaches
      have target := (mem_targets_iff sound).mpr ⟨stored, concerned⟩
      rcases complete path target with member | unrelated | absent
      · exact member
      · rw [relates] at unrelated
        cases unrelated
      · rw [absent] at stored
        cases stored

/-! ## The order of events -/

/-- The events of one location stand together, and no event stands before one of a location
below its own. -/
structure BottomUp (events : List Event) : Prop where
  together : ∀ before left between right after,
    events = before ++ left :: (between ++ right :: after) →
      left.path = right.path → ∀ event ∈ between, event.path = left.path
  upward : events.Pairwise fun earlier later =>
    earlier.path = later.path ∨
      Path.contains earlier.path later.path = false

/-- Events that are sorted from the bottom up are so in both respects. -/
theorem BottomUp.of_sorted
    {events : List Event}
    (sorted : events.Pairwise fun earlier later =>
      (bottomUp earlier.path later.path).isLE = true) :
    BottomUp events where
  together := by
    rintro before left between right after rfl same event member
    obtain ⟨_, fromLeft, _⟩ := List.pairwise_append.mp sorted
    obtain ⟨first, later⟩ := List.pairwise_cons.mp fromLeft
    obtain ⟨_, _, last⟩ := List.pairwise_append.mp later
    have up := first event (List.mem_append_left _ member)
    have down := last event member right List.mem_cons_self
    rw [← same] at down
    exact Std.LawfulEqCmp.eq_of_compare
      (Std.OrientedCmp.isLE_antisymm down up)
  upward := by
    refine sorted.imp ?_
    intro earlier later notAfter
    by_cases same : earlier.path = later.path
    · exact Or.inl same
    · refine Or.inr (Bool.eq_false_iff.mpr fun contained => ?_)
      have before := bottomUp_of_contains contained same
      rw [Std.OrientedCmp.gt_of_lt before] at notAfter
      cases notAfter

private theorem sorted_of_located
    {path : Path} {events : List Event}
    (located : ∀ event ∈ events, event.path = path) :
    events.Pairwise fun earlier later =>
      (bottomUp earlier.path later.path).isLE = true := by
  refine List.pairwise_of_forall_mem_list ?_
  intro earlier earlierMember later laterMember
  rw [located earlier earlierMember, located later laterMember]
  exact Ordering.isLE_of_eq_eq Std.ReflCmp.compare_self

/-- Sorting by location sorts the events, which stand at the location they are sorted by. -/
theorem sorted_events
    {raised : List (Path × List Event)}
    (located : ∀ entry ∈ raised, ∀ event ∈ entry.2, event.path = entry.1) :
    ((raised.mergeSort fun a b => bottomUp a.1 b.1 != .gt).flatMap
      (·.2)).Pairwise fun earlier later =>
        (bottomUp earlier.path later.path).isLE = true := by
  have order (left right : Path) :
      (bottomUp left right != .gt) = (bottomUp left right).isLE := by
    cases bottomUp left right <;> rfl
  have total (left right : Path) :
      ((bottomUp left right).isLE || (bottomUp right left).isLE) = true := by
    rw [@Std.OrientedCmp.eq_swap _ bottomUp _ right left]
    cases bottomUp left right <;> rfl
  simp only [order]
  have entries := @List.pairwise_mergeSort _
    (fun a b : Path × List Event => (bottomUp a.1 b.1).isLE)
    (fun _ _ _ => Std.TransCmp.isLE_trans) (fun a b => total a.1 b.1) raised
  refine List.pairwise_flatMap.mpr ⟨?_, ?_⟩
  · intro entry member
    exact sorted_of_located (located entry (List.mem_mergeSort.mp member))
  · refine entries.imp_of_mem ?_
    intro first second firstMember secondMember before left leftMember
      right rightMember
    rw [located first (List.mem_mergeSort.mp firstMember) left leftMember,
      located second (List.mem_mergeSort.mp secondMember) right rightMember]
    exact before

/-- What a site raises in its turn is at its location. -/
theorem located_of_turn
    (pendingSound : pending.Sound) (valid : operation.Valid)
    {sites next : Sites} (sound : sites.Sound) (nextSound : next.Sound)
    {path : Path} {events : List Event}
    (turn : Turn pending operation (next.serverNode? path true) sites next
      path events) :
    ∀ event ∈ events, event.path = path := by
  obtain ⟨reaches, found, applied, _⟩ := turn
  have siteSound := sound.site found
  have vantageSound : (pending.at path).pending.Sound := pendingSound
  have relativeValid := (Operation.shows_of_relativeTo? valid reaches).valid
  have ancestorCanonical :
      ∀ ancestor ∈ next.serverNode? path true, ancestor.Canonical :=
    fun _ answer => nextSound.canonical_serverNode? answer
  obtain ⟨told, succeeded, characterized⟩ :=
    siteSound.apply_ok vantageSound ancestorCanonical relativeValid
  rw [succeeded] at applied
  cases applied
  intro event member
  exact siteSound.path_of_tells vantageSound ancestorCanonical relativeValid
    ((characterized event).mp member)

/-- The events of a routed operation stand from the bottom up. -/
theorem bottomUp_of_route
    (pendingSound : pending.Sound) (valid : operation.Valid)
    {sites next : Sites} (sound : sites.Sound) {events : List Event}
    (routed : sites.route operation pending = .ok (events, next)) :
    BottomUp events := by
  obtain ⟨_, _, succeeded, delivered⟩ := route_ok pendingSound valid sound
  have nextSound := delivered.sound
  rw [routed] at succeeded
  cases succeeded
  obtain ⟨raised, descends, rfl⟩ := topDown_of_route sound routed
  exact .of_sorted (sorted_events fun entry member =>
    located_of_turn pendingSound valid sound nextSound
      (descends.turns entry member))

end Sites

private theorem View.path_of_mem_initialEvents
    {view : View} {registration : Registration} {event : Event}
    (member : event ∈ view.initialEvents registration) :
    event.path = view.query.path := by
  unfold View.initialEvents at member
  split at member
  · cases member
  · exact (View.mem_ofChanges member).1

namespace Engine

/-! ## Calls -/

/-- The operation that a call routes if it is not refused. A hidden write is not routed before it
is accepted. -/
def operation? (engine : Engine) : Call → Option Operation
  | .userOverwrite path node _ visible =>
      if visible then some (.overwrite .user path node) else none
  | .userMerge path nodes _ => some (.merge .user path nodes)
  | .acknowledge id rejected =>
      (engine.pending.writes.find? (·.id == id)).bind fun write =>
        if !write.visible && rejected then none
        else some (.acknowledge write.path rejected write.overlay)
  | .serverOverwrite path node => some (.overwrite .server path node)
  | .serverMerge path nodes => some (.merge .server path nodes)
  | .listenComplete path => some (.listenComplete path)
  | _ => none

variable {engine : Engine}

/-- The events of every call stand from the bottom up. -/
theorem Course.bottomUp
    {call : Call} {outcome : List Event × Engine}
    (course : Course engine call outcome) (sound : engine.Sound) :
    Sites.BottomUp outcome.1 := by
  have nothing : Sites.BottomUp [] := .of_sorted .nil
  cases course with
  | quiet _ _ _ _ _ => exact nothing
  | routed valid pending _ _ _ _ _ route =>
      exact Sites.bottomUp_of_route pending valid sound.sites route
  | narrowed _ _ _ => exact nothing
  | joined _ _ _ _ _ _ =>
      exact .of_sorted (Sites.sorted_of_located fun _ member =>
        View.path_of_mem_initialEvents member)

/-- What a call replies that has an operation to route: it was routed, or the sites are as they
were. -/
def Settles (sites : Sites) (operation? : Option Operation)
    (reply : Reply (List Event)) : Prop :=
  match reply.result, operation? with
  | .ok events, some operation =>
      sites.route operation reply.engine.pending =
        .ok (events, reply.engine.sites)
  | .ok events, none => events = [] ∧ reply.engine.sites = sites
  | .error _, _ => reply.engine.sites = sites

private theorem settles_run
    (engine : Engine) (operation : Operation) (pending : Pending) :
    Settles engine.sites (some operation) (engine.run operation pending) := by
  unfold run
  cases routed : engine.sites.route operation pending with
  | error failure => exact rfl
  | ok answer => exact routed

/-- A call that is not about listeners routes its operation, or leaves all sites alone. -/
theorem settles_perform
    {call : Call} (notAbout : call.listens = false) :
    ∃ reply, engine.perform call = reply.outcome ∧
      engine.answer call = .events reply.result ∧
        Settles engine.sites (engine.operation? call) reply := by
  cases call with
  | userOverwrite path node id visible =>
      refine ⟨_, rfl, rfl, ?_⟩
      unfold userOverwrite operation?
      cases engine.pending.addOverwrite id path node visible with
      | error failure => exact rfl
      | ok pending =>
          cases visible with
          | true => exact settles_run _ _ _
          | false => exact ⟨rfl, rfl⟩
  | userMerge path nodes id =>
      refine ⟨_, rfl, rfl, ?_⟩
      unfold userMerge operation?
      cases engine.pending.addMerge id path nodes with
      | error failure => exact rfl
      | ok pending => exact settles_run _ _ _
  | acknowledge id rejected =>
      refine ⟨_, rfl, rfl, ?_⟩
      unfold acknowledge operation?
      cases removed : engine.pending.remove id with
      | error failure => exact rfl
      | ok answer =>
          obtain ⟨write, pending⟩ := answer
          dsimp only
          rw [Pending.find?_of_remove removed, Option.bind_some]
          cases !write.visible && rejected with
          | true => exact ⟨rfl, rfl⟩
          | false => exact settles_run _ _ _
  | serverOverwrite path node => exact ⟨_, rfl, rfl, settles_run _ _ _⟩
  | serverMerge path nodes => exact ⟨_, rfl, rfl, settles_run _ _ _⟩
  | listenComplete path => exact ⟨_, rfl, rfl, settles_run _ _ _⟩
  | register _ _ => cases notAbout
  | unregister _ _ => cases notAbout
  | removeListener _ => cases notAbout
  | revoke _ => cases notAbout

/-- The sites that the operation of a call reaches have their turns from the top down. -/
theorem topDown_perform
    (sound : engine.Sound) {call : Call} {operation : Operation}
    (routes : engine.operation? call = some operation)
    (succeeds : (engine.answer call).succeeded = true) :
    ∃ raised, Sites.TopDown (engine.perform call).2.pending operation
      engine.sites (engine.perform call).2.sites raised := by
  have notAbout : call.listens = false := by
    cases call <;> first | rfl | cases routes
  obtain ⟨reply, performed, answered, settles⟩ :=
    @settles_perform engine call notAbout
  unfold Settles at settles
  rw [routes] at settles
  rw [performed]
  unfold Reply.outcome
  cases result : reply.result with
  | error failure =>
      rw [answered, result] at succeeds
      cases succeeds
  | ok events =>
      rw [result] at settles
      obtain ⟨raised, descends, _⟩ :=
        Sites.topDown_of_route sound.sites settles
      exact ⟨raised, descends⟩

/-- A call that routes nothing changes no site and tells nothing. -/
theorem still_perform
    {call : Call} (notAbout : call.listens = false)
    (idle : engine.operation? call = none ∨
      (engine.answer call).succeeded = false) :
    (engine.perform call).2.sites = engine.sites ∧
      (engine.perform call).1 = [] := by
  obtain ⟨reply, performed, answered, settles⟩ :=
    @settles_perform engine call notAbout
  unfold Settles at settles
  rw [performed]
  unfold Reply.outcome
  cases result : reply.result with
  | error failure =>
      rw [result] at settles
      exact ⟨settles, rfl⟩
  | ok events =>
      rw [result] at settles
      rcases idle with unrouted | refused
      · rw [unrouted] at settles
        exact ⟨settles.2, settles.1⟩
      · rw [answered, result] at refused
        cases refused

/-- In every state that a run reaches and for every call from there: if the call is not refused,
the sites that its operation reaches have their turns from the top down; otherwise no site has one,
and nothing is told. The events that the call returns stand from the bottom up. Both rest on total
orders of the locations. -/
theorem told_bottom_up
    (config : Config) {calls : List Call}
    (valid : ∀ call ∈ calls, call.Valid) {call : Call}
    (callValid : call.Valid) :
    let engine := (create config).after calls
    let next := (engine.perform call).2
    let events := (engine.perform call).1
    (∀ operation, engine.operation? call = some operation →
        (engine.answer call).succeeded = true →
          ∃ raised, Sites.TopDown next.pending operation engine.sites
            next.sites raised) ∧
      (call.listens = false →
        engine.operation? call = none ∨
          (engine.answer call).succeeded = false →
          next.sites = engine.sites ∧ events = []) ∧
      Sites.BottomUp events ∧
      Path.Ranks compare ∧ Path.Ranks Sites.bottomUp ∧
      ∀ above path, Path.contains above path = true → above ≠ path →
        compare above path = .lt ∧ Sites.bottomUp path above = .lt := by
  intro engine next events
  have sound : engine.Sound := (Sound.create config).after valid
  refine ⟨fun _ => topDown_perform sound, still_perform,
    (course_perform sound callValid).bottomUp sound,
    Path.ranks_of_laws _, Path.ranks_of_laws _, ?_⟩
  exact fun above path contained different =>
    ⟨Path.compare_of_contains contained different,
      Sites.bottomUp_of_contains contained different⟩

/-- Listeners at nested and at unrelated locations, attached from the bottom up. -/
def nestedListeners : List Call :=
  [.register { path := [⟨"b"⟩] } (.all 1),
    .register { path := [⟨"a"⟩, ⟨"x"⟩] } (.all 2),
    .register { path := [⟨"a"⟩] } (.all 3),
    .register { path := [] } (.all 4)]

def nestedData : Node :=
  .branch [(⟨"a"⟩, .branch [(⟨"x"⟩, .ofScalar (.bool true))] none),
    (⟨"b"⟩, .ofScalar (.bool true))] none

/-- The data is accepted; what is at "a/x" is told first, and what is at the root last. -/
theorem paths_nestedListeners :
    let engine := (create { session := "" }).after nestedListeners
    let call := Call.serverOverwrite [] nestedData
    ((engine.answer call).succeeded,
        (engine.perform call).1.map (·.path.map (·.text))) =
      (true, [["a", "x"], ["a"], ["a"], ["b"], [], [], []]) := by
  cbv

theorem told_bottom_up_nested :
    let engine := (create { session := "" }).after nestedListeners
    let call := Call.serverOverwrite [] nestedData
    let next := (engine.perform call).2
    let events := (engine.perform call).1
    events.map (·.path.map (·.text)) =
        [["a", "x"], ["a"], ["a"], ["b"], [], [], []] ∧
      (∃ raised, Sites.TopDown next.pending
        (.overwrite .server [] nestedData) engine.sites next.sites
          raised) ∧
      Sites.BottomUp events := by
  intro engine call next events
  have scalar := Node.Canonical.ofScalar (.bool true)
  have canonical : nestedData.Canonical :=
    (Node.Canonical.empty.setDescendant scalar
      [⟨"a"⟩, ⟨"x"⟩]).setDescendant scalar [⟨"b"⟩]
  have valid : ∀ call ∈ nestedListeners, call.Valid := by
    simp [nestedListeners, Call.Valid]
  have callValid : call.Valid := canonical
  obtain ⟨succeeds, paths⟩ := Prod.mk.inj paths_nestedListeners
  obtain ⟨downward, _, upward, _⟩ :=
    told_bottom_up { session := "" } valid callValid
  exact ⟨paths, downward _ rfl succeeds, upward⟩

end Engine

end Replica
