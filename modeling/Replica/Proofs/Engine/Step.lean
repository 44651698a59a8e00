import Replica.Proofs.Engine.Call

/-!
# What a call does

Every call takes one of four courses: it leaves all views alone, it is routed as an operation, it
detaches listeners and drops views, or it attaches a listener. From the course of a call follows
where each view comes from that is live after it.
-/

namespace Replica

namespace Sites

theorem canonical_serverCache
    {sites : Sites} (sound : sites.Sound) (path : Path) :
    (sites.serverCache path).node.Canonical := by
  unfold serverCache
  cases known : sites.serverNode? path false with
  | some node => exact sound.canonical_serverNode? known
  | none =>
      refine List.foldlRecOn (motive := Node.Canonical) _ _
        Node.Canonical.empty fun all canonical entry member => ?_
      dsimp only
      split
      · rename_i key node _ answer
        exact canonical.setChild
          ((sound.sound entry member).canonical_serverNode? answer) key
      · exact canonical

variable {sites : Sites} {path base : Path} {identifier name : String}
  {view : View}

theorem lookup?_eq_find? :
    sites.lookup? path identifier =
      Sorted.find? identifier ((Sorted.find? path sites).getD []) := by
  unfold lookup?
  cases Sorted.find? path sites with
  | none => rfl
  | some _ => rfl

def place (sites : Sites) (path : Path) (identifier : String)
    (view : View) : Sites :=
  Sorted.insert path
    (Sorted.insert identifier view ((Sorted.find? path sites).getD []))
    sites

@[simp]
theorem lookup?_place_self :
    (sites.place path identifier view).lookup? path identifier =
      some view := by
  unfold place
  rw [lookup?_eq_find?, Sorted.find?_insert_self, Option.getD_some,
    Sorted.find?_insert_self]

@[simp]
theorem lookup?_place_of_ne
    (other : path ≠ base ∨ identifier ≠ name) :
    (sites.place base name view).lookup? path identifier =
      sites.lookup? path identifier := by
  unfold place
  rw [lookup?_eq_find?, lookup?_eq_find?]
  by_cases samePath : path = base
  · have different : identifier ≠ name :=
      other.resolve_left fun contrary => contrary samePath
    rw [samePath, Sorted.find?_insert_self, Option.getD_some,
      Sorted.find?_insert_of_ne _ different]
  · rw [Sorted.find?_insert_of_ne _ samePath]

private theorem Sound.place
    (sound : sites.Sound) (viewSound : view.Sound path) :
    (sites.place path identifier view).Sound := by
  have siteSound :
      Site.Sound path ((Sorted.find? path sites).getD []) := by
    cases found : Sorted.find? path sites with
    | none =>
        exact ⟨List.Pairwise.nil, fun _ member =>
          absurd member List.not_mem_nil⟩
    | some _ => exact sound.site found
  refine sound.insert
    ⟨Sorted.ascending_insert _ siteSound.ascending, ?_⟩
  intro entry member
  rcases Sorted.mem_of_mem_insert member with rfl | old
  · exact viewSound
  · exact siteSound.sound entry old

end Sites

namespace View

def joinedBy (view : View) (registration : Registration) : View :=
  { view with registrations := view.registrations ++ [registration] }

end View

namespace Engine

/-- What a call does: the events that it raises, and the engine after it. -/
inductive Course (engine : Engine) (call : Call) :
    List Event × Engine → Prop where
  | quiet {next : Engine} (sites : next.sites = engine.sites)
      (pending : next.pending.Sound)
      (overlay : next.pending.overlay = engine.pending.overlay)
      (made : ∀ write ∈ next.pending.writes,
        write ∈ engine.pending.writes ∨ call.write? = some write)
      (unsaid : engine.serverWrites call = []) :
      Course engine call ([], next)
  | routed {operation : Operation} {events : List Event} {next : Engine}
      (valid : operation.Valid) (pending : next.pending.Sound)
      (turns : Overlay.Turns engine.pending.overlay next.pending.overlay
        operation.writes)
      (delivered : Sites.Delivered next.pending operation engine.sites
        next.sites events)
      (said : operation.serverWrites = engine.serverWrites call)
      (completes : operation.completes = call.completes)
      (made : ∀ write ∈ next.pending.writes,
        write ∈ engine.pending.writes ∨ call.write? = some write)
      (route : engine.sites.route operation next.pending =
        .ok (events, next.sites)) :
      Course engine call (events, next)
  | narrowed {next : Engine} (pending : next.pending = engine.pending)
      (narrows : Sites.Narrows engine.sites next.sites)
      (unsaid : engine.serverWrites call = []) :
      Course engine call ([], next)
  | joined {query : Query} {registration : Registration} {view : View}
      {next : Engine} (isCall : call = .register query registration)
      (pending : next.pending = engine.pending)
      (sound : next.sites.Sound)
      (origin :
        engine.sites.lookup? query.path query.identifier = some view ∨
          engine.sites.lookup? query.path query.identifier = none ∧
            view = .create query (engine.sites.serverCache query.path)
              (engine.pending.at query.path))
      (here : next.sites.lookup? query.path query.identifier =
        some (view.joinedBy registration))
      (elsewhere : ∀ path identifier,
        (path ≠ query.path ∨ identifier ≠ query.identifier) →
        next.sites.lookup? path identifier =
          engine.sites.lookup? path identifier) :
      Course engine call (view.initialEvents registration, next)

variable {engine : Engine}

/-- Routing a valid operation succeeds. -/
theorem run_ok
    (sound : engine.sites.Sound) {operation : Operation}
    (valid : operation.Valid) {pending : Pending}
    (pendingSound : pending.Sound) :
    ∃ events next,
      engine.run operation pending = ⟨.ok events, next⟩ ∧
        next.pending = pending ∧ next.config = engine.config ∧
        Sites.Delivered pending operation engine.sites next.sites
          events ∧
        engine.sites.route operation pending =
          .ok (events, next.sites) := by
  obtain ⟨events, sites, routed, delivered⟩ :=
    Sites.route_ok pendingSound valid sound
  refine ⟨events,
    { engine with
      sites := sites
      pending := pending
      counters := engine.counters.countEvents events.length },
    ?_, rfl, rfl, delivered, routed⟩
  unfold run
  rw [routed]
  rfl

private theorem course_run
    (sound : engine.sites.Sound) {call : Call} {operation : Operation}
    (valid : operation.Valid) {counted : Engine} {pending : Pending}
    (sameSites : counted.sites = engine.sites)
    (pendingSound : pending.Sound)
    (turns : Overlay.Turns engine.pending.overlay pending.overlay
      operation.writes)
    (said : operation.serverWrites = engine.serverWrites call)
    (completes : operation.completes = call.completes)
    (made : ∀ write ∈ pending.writes,
      write ∈ engine.pending.writes ∨ call.write? = some write) :
    Course engine call (counted.run operation pending).outcome := by
  have countedSound : counted.sites.Sound := by
    rw [sameSites]
    exact sound
  obtain ⟨events, next, replied, samePending, _, delivered, route⟩ :=
    run_ok countedSound valid pendingSound
  subst samePending
  rw [replied]
  rw [sameSites] at delivered route
  exact .routed valid pendingSound turns delivered said completes made
    route

private theorem course_userOverwrite
    (sound : engine.Sound) (path : Path) {node : Node}
    (canonical : node.Canonical) (id : WriteId) (visible : Bool) :
    Course engine (.userOverwrite path node id visible)
      (engine.userOverwrite path node id visible).outcome := by
  have writeValid :
      (Write.mk id path (.overwrite node) visible).overlay.Valid :=
    Overlay.Valid.ofNode canonical
  unfold userOverwrite
  cases added : engine.pending.addOverwrite id path node visible with
  | error failure =>
      exact .quiet rfl sound.pending rfl (fun _ => Or.inl) rfl
  | ok pending =>
      have pendingSound := sound.pending.add writeValid added
      have made : ∀ write ∈ pending.writes,
          write ∈ engine.pending.writes ∨
            (Call.userOverwrite path node id visible).write? =
              some write :=
        fun write member =>
          (Pending.mem_writes_of_add added member).imp_right
            fun isNew => congrArg some isNew.symm
      cases visible with
      | true =>
          have valid : (Operation.overwrite .user path node).Valid :=
            canonical
          have turns : Overlay.Turns engine.pending.overlay pending.overlay
              (Operation.overwrite .user path node).writes :=
            Pending.turns_of_add added
          exact course_run sound.sites valid rfl pendingSound turns rfl rfl
            made
      | false =>
          exact .quiet rfl pendingSound (Pending.add_eq_ok added).2 made
            rfl

private theorem course_userMerge
    (sound : engine.Sound) (path : Path) {nodes : Overlay}
    (nodesValid : nodes.Valid) (id : WriteId) :
    Course engine (.userMerge path nodes id)
      (engine.userMerge path nodes id).outcome := by
  have writeValid :
      (Write.mk id path (.merge nodes) true).overlay.Valid :=
    nodesValid
  unfold userMerge
  cases added : engine.pending.addMerge id path nodes with
  | error failure =>
      exact .quiet rfl sound.pending rfl (fun _ => Or.inl) rfl
  | ok pending =>
      have valid : (Operation.merge .user path nodes).Valid := nodesValid
      have turns : Overlay.Turns engine.pending.overlay pending.overlay
          (Operation.merge .user path nodes).writes :=
        Pending.turns_of_add added
      exact course_run sound.sites valid rfl
        (sound.pending.add writeValid added) turns rfl rfl
        fun write member =>
          (Pending.mem_writes_of_add added member).imp_right
            fun isNew => congrArg some isNew.symm

private theorem course_acknowledge
    (sound : engine.Sound) (id : WriteId) (rejected : Bool) :
    Course engine (.acknowledge id rejected)
      (engine.acknowledge id rejected).outcome := by
  unfold acknowledge
  cases removed : engine.pending.remove id with
  | error failure =>
      refine .quiet rfl sound.pending rfl (fun _ => Or.inl) ?_
      cases rejected with
      | true => rfl
      | false =>
          change ((engine.pending.writes.find? (·.id == id)).map
            Write.writes).getD [] = []
          rw [Pending.find?_of_remove_error removed]
          rfl
  | ok answer =>
      obtain ⟨write, pending⟩ := answer
      have pendingSound := sound.pending.remove removed
      have writeValid := sound.pending.valid_of_remove removed
      have valid :
          (Operation.acknowledge write.path rejected
            write.overlay).Valid :=
        writeValid
      have turns : Overlay.Turns engine.pending.overlay pending.overlay
          (Operation.acknowledge write.path rejected
            write.overlay).writes :=
        Pending.turns_of_remove sound.pending removed
      dsimp only
      cases hidden : !write.visible && rejected with
      | true =>
          obtain ⟨invisible, isRejected⟩ := Bool.and_eq_true_iff.mp hidden
          obtain ⟨_, _, _, _, overlay⟩ := Pending.remove_eq_ok removed
          rw [if_neg (by simpa using invisible)] at overlay
          rw [isRejected]
          exact .quiet rfl pendingSound overlay
            (fun _ member =>
              Or.inl (Pending.mem_writes_of_remove removed member)) rfl
      | false =>
          rw [if_neg (by simp)]
          refine course_run sound.sites valid rfl pendingSound turns ?_ rfl
            fun _ member =>
              Or.inl (Pending.mem_writes_of_remove removed member)
          cases rejected with
          | true => rfl
          | false =>
              change write.writes =
                ((engine.pending.writes.find? (·.id == id)).map
                  Write.writes).getD []
              rw [Pending.find?_of_remove removed]
              rfl

private theorem course_server
    (sound : engine.Sound) {call : Call} {operation : Operation}
    (valid : operation.Valid)
    (said : operation.serverWrites = engine.serverWrites call)
    (completes : operation.completes = call.completes) :
    Course engine call (engine.serverOperation operation).outcome :=
  course_run sound.sites valid rfl sound.pending (.kept rfl) said completes
    fun _ => Or.inl

private theorem course_register
    (sound : engine.Sound) (query : Query) (registration : Registration) :
    Course engine (.register query registration)
      (engine.register query registration).outcome := by
  unfold register
  cases query.selection.validate with
  | error failure =>
      exact .quiet rfl sound.pending rfl (fun _ => Or.inl) rfl
  | ok _ =>
      let view := (Sorted.find? query.identifier
        ((Sorted.find? query.path engine.sites).getD [])).getD
          (.create query (engine.sites.serverCache query.path)
            (engine.pending.at query.path))
      let sites :=
        engine.sites.place query.path query.identifier
          (view.joinedBy registration)
      have origin :
          engine.sites.lookup? query.path query.identifier = some view ∨
            engine.sites.lookup? query.path query.identifier = none ∧
              view = .create query (engine.sites.serverCache query.path)
                (engine.pending.at query.path) := by
        dsimp only [view]
        rw [← Sites.lookup?_eq_find?]
        cases engine.sites.lookup? query.path query.identifier with
        | none => exact Or.inr ⟨rfl, rfl⟩
        | some _ => exact Or.inl rfl
      have viewSound : view.Sound query.path := by
        rcases origin with found | ⟨_, created⟩
        · exact sound.sites.view found
        · rw [created]
          exact View.Sound.create
            (Sites.canonical_serverCache sound.sites query.path)
            sound.pending
      have joinedSound :
          (view.joinedBy registration).Sound query.path :=
        ⟨viewSound.canonical, viewSound.located⟩
      have outcome (reply : Reply (List Event))
          (result : reply.result = .ok (view.initialEvents registration))
          (samePending : reply.engine.pending = engine.pending)
          (newSites : reply.engine.sites = sites) :
          Course engine (.register query registration) reply.outcome := by
        unfold Reply.outcome
        rw [result]
        refine .joined rfl samePending ?_ origin ?_ ?_
        · rw [newSites]
          exact sound.sites.place joinedSound
        · rw [newSites]
          exact Sites.lookup?_place_self
        · rw [newSites]
          exact fun _ _ => Sites.lookup?_place_of_ne
      dsimp only
      split
      · exact outcome _ rfl rfl rfl
      · exact outcome _ rfl rfl rfl

/-- Every call takes one of the courses. -/
theorem course_perform
    (sound : engine.Sound) {call : Call} (valid : call.Valid) :
    Course engine call (engine.perform call) := by
  cases call with
  | userOverwrite path node id visible =>
      exact course_userOverwrite sound path valid id visible
  | userMerge path nodes id => exact course_userMerge sound path valid id
  | acknowledge id rejected => exact course_acknowledge sound id rejected
  | serverOverwrite path node =>
      have operationValid : (Operation.overwrite .server path node).Valid :=
        valid
      exact course_server sound operationValid
        (Overlay.writesBelow_ofNode path node) rfl
  | serverMerge path nodes =>
      have operationValid : (Operation.merge .server path nodes).Valid :=
        valid
      exact course_server sound operationValid rfl rfl
  | listenComplete path =>
      have operationValid : (Operation.listenComplete path).Valid := trivial
      exact course_server sound operationValid rfl rfl
  | register query registration =>
      exact course_register sound query registration
  | unregister query listener =>
      exact .narrowed (pending_detach _ _ _ _)
        (narrows_detach sound.sites _ _ _) rfl
  | removeListener listener =>
      obtain ⟨pending, narrows⟩ :=
        removeListener_narrows sound.sites listener
      exact .narrowed pending narrows rfl
  | revoke path => exact .narrowed rfl (narrows_revoke sound.sites path) rfl

theorem Course.sound
    {call : Call} {outcome : List Event × Engine}
    (course : Course engine call outcome) (sound : engine.Sound) :
    outcome.2.Sound := by
  cases course with
  | quiet sites pending _ _ _ =>
      refine ⟨pending, ?_⟩
      rw [sites]
      exact sound.sites
  | routed _ pending _ delivered _ _ _ _ =>
      exact ⟨pending, delivered.sound⟩
  | narrowed pending narrows _ =>
      refine ⟨?_, narrows.sound⟩
      rw [pending]
      exact sound.pending
  | joined _ pending nextSound _ _ _ =>
      refine ⟨?_, nextSound⟩
      rw [pending]
      exact sound.pending

/-- A pending write was pending before the call, or it is the one that the call makes. -/
theorem Course.mem_pending
    {call : Call} {outcome : List Event × Engine}
    (course : Course engine call outcome) :
    ∀ write ∈ outcome.2.pending.writes,
      write ∈ engine.pending.writes ∨ call.write? = some write := by
  intro write member
  cases course with
  | quiet _ _ _ made _ => exact made write member
  | routed _ _ _ _ _ _ made _ => exact made write member
  | narrowed pending _ _ =>
      dsimp only at member
      rw [pending] at member
      exact Or.inl member
  | joined _ pending _ _ _ _ =>
      dsimp only at member
      rw [pending] at member
      exact Or.inl member

/-- The nodes that a call puts in place in the data of the server are canonical. -/
theorem Course.canonical_serverWrites
    {call : Call} {outcome : List Event × Engine}
    (course : Course engine call outcome) :
    ∀ write ∈ engine.serverWrites call, write.2.Canonical := by
  have nothing (unsaid : engine.serverWrites call = []) :
      ∀ write ∈ engine.serverWrites call, write.2.Canonical := by
    rw [unsaid]
    exact fun _ member => absurd member List.not_mem_nil
  cases course with
  | quiet _ _ _ _ unsaid => exact nothing unsaid
  | routed valid _ _ _ said _ _ _ =>
      rw [← said]
      exact valid.canonical_of_mem_serverWrites
  | narrowed _ _ unsaid => exact nothing unsaid
  | joined isCall _ _ _ _ _ =>
      subst isCall
      exact nothing rfl

theorem Sound.perform
    (sound : engine.Sound) {call : Call} (valid : call.Valid) :
    (engine.perform call).2.Sound :=
  (course_perform sound valid).sound sound

/-- What every valid call of a kind leaves in place holds after every run of such calls. -/
theorem Sound.after_of_admitted
    (holds : Engine → Prop) (admits : Call → Prop)
    (keeps : ∀ {engine : Engine} {call : Call}, engine.Sound →
      call.Valid → admits call → holds engine →
        holds (engine.perform call).2)
    (sound : engine.Sound) (start : holds engine) {calls : List Call}
    (valid : ∀ call ∈ calls, call.Valid)
    (admitted : ∀ call ∈ calls, admits call) :
    holds (engine.after calls) := by
  induction calls generalizing engine with
  | nil => exact start
  | cons call rest inductionHypothesis =>
      obtain ⟨first, others⟩ := List.forall_mem_cons.mp valid
      obtain ⟨firstAdmitted, othersAdmitted⟩ :=
        List.forall_mem_cons.mp admitted
      exact inductionHypothesis (sound.perform first)
        (keeps sound first firstAdmitted start) others othersAdmitted

theorem Sound.after_of_perform
    (holds : Engine → Prop)
    (keeps : ∀ {engine : Engine} {call : Call}, engine.Sound →
      call.Valid → holds engine → holds (engine.perform call).2)
    (sound : engine.Sound) (start : holds engine) {calls : List Call}
    (valid : ∀ call ∈ calls, call.Valid) : holds (engine.after calls) :=
  sound.after_of_admitted holds (fun _ => True)
    (fun before callValid _ => keeps before callValid) start valid
    fun _ _ => trivial

theorem Sound.after
    (sound : engine.Sound) {calls : List Call}
    (valid : ∀ call ∈ calls, call.Valid) : (engine.after calls).Sound :=
  sound.after_of_perform Sound
    (fun before callValid _ => before.perform callValid) sound valid

/-! ## Where views come from -/

/-- Where a view comes from that is live after a call. -/
inductive Origin (engine next : Engine) (call : Call) (path : Path)
    (identifier : String) (view : View) : Prop where
  | kept {old : View} {writes : List (Path × Node)}
      (found : engine.sites.lookup? path identifier = some old)
      (query : view.query = old.query) (caches : view.caches = old.caches)
      (canonical : ∀ write ∈ writes, write.2.Canonical)
      (turns : Overlay.Turns engine.pending.overlay next.pending.overlay
        writes)
      (unseen : writes.filterMap (Overlay.seenFrom path) = [])
      (unsaid : (engine.serverWrites call).filterMap
        (Overlay.seenFrom path) = [])
  | took {old : View} {operation relative : Operation}
      {ancestor? : Option Node}
      (found : engine.sites.lookup? path identifier = some old)
      (ancestor : ∀ node ∈ ancestor?, node.Canonical)
      (shows : operation.Shows relative path)
      (valid : operation.Valid)
      (turns : Overlay.Turns engine.pending.overlay next.pending.overlay
        operation.writes)
      (result : view =
        old.after relative (next.pending.at path) ancestor?)
      (said : relative.serverWrites =
        (engine.serverWrites call).filterMap (Overlay.seenFrom path))
      (completes : relative.completes = call.completes)
  | created {query : Query} {registration : Registration}
      (isCall : call = .register query registration)
      (located : path = query.path)
      (isQuery : view.query = query)
      (caches : view.caches =
        (View.create query (engine.sites.serverCache path)
          (engine.pending.at path)).caches)
      (pending : next.pending = engine.pending)

/-- Nothing is seen of an operation from a location that it is not routed to. -/
theorem unseen_of_reaching?
    {operation : Operation} (valid : operation.Valid) {path : Path}
    (missed : Sites.reaching? operation path = none) :
    operation.writes.filterMap (Overlay.seenFrom path) = [] := by
  unfold Sites.reaching? at missed
  split at missed
  · exact Operation.unseen_of_relativeTo? valid missed
  · rename_i unconcerned
    cases operation with
    | listenComplete _ => rfl
    | overwrite source target node =>
        have outside := Bool.or_eq_false_iff.mp
          (Bool.not_eq_true _ ▸ unconcerned)
        exact Operation.unseen_of_relativeTo? valid
          (Operation.relativeTo?_of_outside outside.1 outside.2)
    | merge source target nodes =>
        have outside := Bool.or_eq_false_iff.mp
          (Bool.not_eq_true _ ▸ unconcerned)
        exact Operation.unseen_of_relativeTo? valid
          (Operation.relativeTo?_of_outside outside.1 outside.2)
    | acknowledge target rejected nodes =>
        have outside := Bool.or_eq_false_iff.mp
          (Bool.not_eq_true _ ▸ unconcerned)
        exact Operation.unseen_of_relativeTo? valid
          (Operation.relativeTo?_of_outside outside.1 outside.2)

theorem unsaid_of_unseen
    {operation : Operation} {path : Path}
    (unseen : operation.writes.filterMap (Overlay.seenFrom path) = []) :
    operation.serverWrites.filterMap (Overlay.seenFrom path) = [] := by
  unfold Operation.serverWrites
  split
  · exact unseen
  · rfl

private theorem origin_of_same
    {next : Engine} {call : Call} {path : Path} {identifier : String}
    {old view : View}
    (found : engine.sites.lookup? path identifier = some old)
    (query : view.query = old.query) (caches : view.caches = old.caches)
    (overlay : next.pending.overlay = engine.pending.overlay)
    (unsaid : engine.serverWrites call = []) :
    Origin engine next call path identifier view := by
  refine .kept found query caches
    (fun _ member => absurd member List.not_mem_nil) (.kept overlay) rfl ?_
  rw [unsaid]
  rfl

/-- Every view that is live after a call has an origin. -/
theorem Course.origin
    {call : Call} {outcome : List Event × Engine}
    (course : Course engine call outcome) (sound : engine.Sound)
    {path : Path} {identifier : String} {view : View}
    (found : outcome.2.sites.lookup? path identifier = some view) :
    Origin engine outcome.2 call path identifier view := by
  cases course with
  | quiet sites pending overlay _ unsaid =>
      dsimp only at found ⊢
      rw [sites] at found
      exact origin_of_same found rfl rfl overlay unsaid
  | @routed operation events next valid pending turns delivered said
      completes _ _ =>
      rcases delivered.view sound.sites found with
        ⟨missed, oldFound⟩ |
          ⟨relative, site, old, ancestor?, reaches, siteFound, oldFound,
            canonical, result, _⟩
      · have hidden := unseen_of_reaching? valid missed
        refine .kept oldFound rfl rfl valid.canonical_of_mem_writes turns
          hidden ?_
        rw [← said]
        exact unsaid_of_unseen hidden
      · have shows := Sites.shows_of_reaching? valid reaches
        refine .took (Sites.lookup?_eq_some_iff.mpr
          ⟨site, siteFound, oldFound⟩) canonical shows valid turns result ?_
          (shows.completes.trans completes)
        rw [shows.serverWrites, said]
  | narrowed pending narrows unsaid =>
      obtain ⟨old, oldFound, query, caches, _⟩ :=
        narrows.views path identifier view found
      exact origin_of_same oldFound query caches
        (congrArg Pending.overlay pending) unsaid
  | @joined query registration old next isCall pending sound origin here
      elsewhere =>
      have unsaid : engine.serverWrites call = [] := by
        rw [isCall]
        rfl
      have sameOverlay := congrArg Pending.overlay pending
      by_cases isHere :
          path = query.path ∧ identifier = query.identifier
      · obtain ⟨rfl, rfl⟩ := isHere
        rw [here] at found
        cases found
        rcases origin with oldFound | ⟨_, created⟩
        · exact origin_of_same oldFound rfl rfl sameOverlay unsaid
        · refine .created isCall rfl ?_ ?_ pending
          · rw [created]
            rfl
          · rw [created]
            rfl
      · have other := not_and_or.mp isHere
        rw [elsewhere path identifier other] at found
        exact origin_of_same found rfl rfl sameOverlay unsaid

end Engine

end Replica
