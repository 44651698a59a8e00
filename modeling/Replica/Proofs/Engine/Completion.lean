import Replica.Proofs.Engine.Fresh

/-!
# What is complete stays complete

Once a view has complete data of the server it keeps it. Without that, what it shows may be
complete because a pending write covers its location. When the server accepts such a write, the
data of the write becomes data of the server in the same call, so only a rejected write can leave
the view incomplete again.
-/

namespace Replica

/-- A cover is lost only through a write that is taken out. -/
theorem Overlay.Turns.covered
    {overlay next : Overlay} {writes : List (Path × Node)}
    (turns : Turns overlay next writes) (valid : overlay.Valid)
    (canonical : ∀ write ∈ writes, write.2.Canonical) {path : Path}
    (covered : (overlay.node? path).isSome = true) :
    (next.node? path).isSome = true ∨
      ∃ write ∈ writes, Path.contains write.1 path = true := by
  by_cases outside : ∀ write ∈ writes, Path.contains write.1 path = false
  · exact .inl ((turns.isSome_node? valid canonical outside).trans covered)
  · refine .inr ?_
    simpa using outside

private theorem Pending.covered_of_add
    {pending next : Pending} (sound : pending.Sound) {write : Write}
    (valid : write.overlay.Valid) (added : pending.add write = .ok next)
    {path : Path} (covered : (pending.overlay.node? path).isSome = true) :
    (next.overlay.node? path).isSome = true := by
  have overlay := (add_eq_ok added).2
  split at overlay
  · rw [overlay, Overlay.addWrite_eq_adds,
      Overlay.isSome_node?_adds sound.overlay_valid
        (Write.canonical_of_mem_writes valid), covered, Bool.true_or]
  · rw [overlay]
    exact covered

/-- Data for the location itself completes the data of the server. -/
theorem Caches.complete_receive_of_root
    {operation : Operation} {node : Node}
    (root : ([], node) ∈ operation.serverWrites)
    (filter : Filter) (caches : Caches) :
    (receive filter caches operation).server.complete = true := by
  have whole : operation.serverWrites.any (·.1.isEmpty) = true :=
    List.any_eq_true.mpr ⟨_, root, rfl⟩
  rw [receive_eq]
  dsimp only
  rw [complete_learn, whole, Bool.or_true, Bool.true_or]

/-- A view and what became of it in one call: its query is the same, what it knew completely it
still does, and if some write that the server was told covers it, it knows everything. -/
structure View.Advances (path : Path) (told : List (Path × Node))
    (old view : View) : Prop where
  query : view.query = old.query
  keeps : old.caches.server.complete = true →
    view.caches.server.complete = true
  learns : ∀ write ∈ told, Path.contains write.1 path = true →
    view.caches.server.complete = true

private theorem View.advances_of_unseen
    {path : Path} {told : List (Path × Node)} {old view : View}
    (query : view.query = old.query) (caches : view.caches = old.caches)
    (unseen : told.filterMap (Overlay.seenFrom path) = []) :
    old.Advances path told view where
  query := query
  keeps := by
    rw [caches]
    exact id
  learns := by
    intro write member contained
    rw [Overlay.outside_of_unseen unseen write member] at contained
    cases contained

private theorem View.advances_after
    (old : View) {path : Path} {operation relative : Operation}
    (shows : operation.Shows relative path) (vantage : Vantage)
    (ancestor? : Option Node) :
    old.Advances path operation.serverWrites
      (old.after relative vantage ancestor?) where
  query := rfl
  keeps := fun complete =>
    Caches.complete_receive_of_complete complete old.filter relative
  learns := by
    intro write member contained
    obtain ⟨below, rfl⟩ := Path.contains_iff.mp contained
    have root : ([], write.2.descendant below) ∈ relative.serverWrites := by
      rw [shows.serverWrites]
      exact List.mem_filterMap.mpr
        ⟨write, member, Overlay.seenFrom_above write.1 below write.2⟩
    exact Caches.complete_receive_of_root root old.filter old.caches

private theorem Call.valid_of_write?
    {call : Call} (valid : call.Valid) {write : Write}
    (makes : call.write? = some write) : write.overlay.Valid := by
  cases call with
  | userOverwrite _ _ _ _ =>
      cases makes
      exact Overlay.Valid.ofNode valid
  | userMerge _ _ _ =>
      cases makes
      exact valid
  | _ => cases makes

namespace Engine

variable {engine : Engine} {path : Path} {identifier : String}

private theorem Course.advances
    {call : Call} {outcome : List Event × Engine}
    (course : Course engine call outcome) (sound : engine.Sound)
    {old view : View}
    (before : engine.sites.lookup? path identifier = some old)
    (found : outcome.2.sites.lookup? path identifier = some view) :
    old.Advances path (engine.serverWrites call) view := by
  have unsaid (nothing : engine.serverWrites call = [])
      (query : view.query = old.query) (caches : view.caches = old.caches) :
      old.Advances path (engine.serverWrites call) view := by
    rw [nothing]
    exact View.advances_of_unseen query caches rfl
  cases course with
  | quiet sites _ _ _ nothing =>
      dsimp only at found
      rw [sites, before] at found
      cases found
      exact unsaid nothing rfl rfl
  | routed valid _ _ delivered said _ _ _ =>
      rw [← said]
      rcases delivered.view sound.sites found with
        ⟨missed, oldFound⟩ |
          ⟨relative, site, reached, ancestor?, reaches, siteFound,
            oldFound, _, rfl, _⟩
      · cases before.symm.trans oldFound
        exact View.advances_of_unseen rfl rfl
          (unsaid_of_unseen (unseen_of_reaching? valid missed))
      · cases before.symm.trans
          (Sites.lookup?_eq_some_iff.mpr ⟨site, siteFound, oldFound⟩)
        exact View.advances_after old
          (Sites.shows_of_reaching? valid reaches) _ _
  | narrowed _ narrows nothing =>
      obtain ⟨kept, oldFound, query, caches, _⟩ :=
        narrows.views path identifier view found
      cases before.symm.trans oldFound
      exact unsaid nothing query caches
  | @joined query registration attached _ isCall _ _ origin here
      elsewhere =>
      have nothing : engine.serverWrites call = [] := by
        rw [isCall]
        rfl
      by_cases isHere :
          path = query.path ∧ identifier = query.identifier
      · obtain ⟨rfl, rfl⟩ := isHere
        cases here.symm.trans found
        rcases origin with oldFound | ⟨absent, _⟩
        · cases before.symm.trans oldFound
          exact unsaid nothing rfl rfl
        · cases before.symm.trans absent
      · rw [elsewhere path identifier (not_and_or.mp isHere), before]
          at found
        cases found
        exact unsaid nothing rfl rfl

/-! ## The pending writes -/

/-- What a call does to the pending writes. -/
inductive Queues (engine : Engine) (call : Call) : Pending → Prop where
  | kept : Queues engine call engine.pending
  | added {write : Write} {next : Pending}
      (makes : call.write? = some write)
      (added : engine.pending.add write = .ok next) :
      Queues engine call next
  | removed {id : WriteId} {rejected : Bool} {write : Write}
      {next : Pending} (isCall : call = .acknowledge id rejected)
      (removed : engine.pending.remove id = .ok (write, next)) :
      Queues engine call next

theorem Queues.sound
    {call : Call} {next : Pending} (queues : Queues engine call next)
    (sound : engine.pending.Sound) (valid : call.Valid) : next.Sound := by
  cases queues with
  | kept => exact sound
  | added makes added =>
      exact sound.add (Call.valid_of_write? valid makes) added
  | removed _ removed => exact sound.remove removed

/-- What a call does that is not about listeners: it changes no more than the pending writes, or
it is routed as an operation. -/
inductive Handles (engine : Engine) (call : Call) : Engine → Prop where
  | noted {pending : Pending} {counters : Counters}
      (queues : Queues engine call pending) :
      Handles engine call
        { engine with pending := pending, counters := counters }
  | run {pending : Pending} {counters : Counters} {operation : Operation}
      (queues : Queues engine call pending) (valid : operation.Valid) :
      Handles engine call
        (({ engine with counters := counters } : Engine).run operation
          pending).outcome.2

theorem handles_perform
    (sound : engine.Sound) {call : Call} (valid : call.Valid)
    (data : call.listens = false) :
    Handles engine call (engine.perform call).2 := by
  have server {operation : Operation} (operationValid : operation.Valid) :
      Handles engine call (engine.serverOperation operation).outcome.2 :=
    .run .kept operationValid
  cases call with
  | userOverwrite path node id visible =>
      rw [perform, userOverwrite]
      have operationValid : (Operation.overwrite .user path node).Valid :=
        valid
      cases added : engine.pending.addOverwrite id path node visible with
      | error failure => exact .noted .kept
      | ok next =>
          have queues : Queues engine (.userOverwrite path node id visible)
              next := .added rfl added
          cases visible with
          | true => exact .run queues operationValid
          | false => exact .noted queues
  | userMerge path nodes id =>
      rw [perform, userMerge]
      have operationValid : (Operation.merge .user path nodes).Valid := valid
      cases added : engine.pending.addMerge id path nodes with
      | error failure => exact .noted .kept
      | ok next =>
          have queues : Queues engine (.userMerge path nodes id) next :=
            .added rfl added
          exact .run queues operationValid
  | acknowledge id rejected =>
      rw [perform, acknowledge]
      cases removed : engine.pending.remove id with
      | error failure => exact .noted .kept
      | ok answer =>
          have queues : Queues engine (.acknowledge id rejected) answer.2 :=
            .removed rfl removed
          have operationValid : (Operation.acknowledge answer.1.path rejected
              answer.1.overlay).Valid :=
            sound.pending.valid_of_remove removed
          dsimp only
          split
          · exact .noted queues
          · exact .run queues operationValid
  | serverOverwrite path node =>
      have operationValid : (Operation.overwrite .server path node).Valid :=
        valid
      exact server operationValid
  | serverMerge path nodes =>
      have operationValid : (Operation.merge .server path nodes).Valid :=
        valid
      exact server operationValid
  | listenComplete path =>
      have operationValid : (Operation.listenComplete path).Valid := trivial
      exact server operationValid
  | register _ _ => cases data
  | unregister _ _ => cases data
  | removeListener _ => cases data
  | revoke _ => cases data

theorem queues_perform
    (sound : engine.Sound) {call : Call} (valid : call.Valid) :
    Queues engine call (engine.perform call).2.pending := by
  cases listens : call.listens with
  | false =>
      have handles := handles_perform sound valid listens
      generalize (engine.perform call).2 = next at handles ⊢
      cases handles with
      | noted queues => exact queues
      | run queues _ =>
          rw [Reply.engine_outcome, run]
          split
          · exact queues
          · exact .kept
  | true =>
      rw [(kept_of_listens sound.sites listens).1]
      exact .kept

/-- A cover is lost only with a rejected write, or the server has been told what covered. -/
theorem covered_perform
    (sound : engine.Sound) {call : Call} (valid : call.Valid)
    (accepts : ∀ id, call ≠ .acknowledge id true)
    (covered : (engine.pending.overlay.node? path).isSome = true) :
    ((engine.perform call).2.pending.overlay.node? path).isSome = true ∨
      ∃ write ∈ engine.serverWrites call,
        Path.contains write.1 path = true := by
  have queues := queues_perform sound valid
  generalize (engine.perform call).2.pending = next at queues ⊢
  cases queues with
  | kept => exact .inl covered
  | added makes added =>
      exact .inl (Pending.covered_of_add sound.pending
        (Call.valid_of_write? valid makes) added covered)
  | @removed id rejected write _ isCall removed =>
      subst isCall
      cases rejected with
      | true => exact absurd rfl (accepts id)
      | false =>
          have told : engine.serverWrites (.acknowledge id false) =
              write.writes := by
            rw [serverWrites, Pending.find?_of_remove removed]
            rfl
          rw [told]
          exact (Pending.turns_of_remove sound.pending removed).covered
            sound.pending.overlay_valid
            (Write.canonical_of_mem_writes
              (sound.pending.valid_of_remove removed)) covered

/-! ## Runs -/

/-- What a view shows completely is complete after every call but a rejection. -/
theorem Fresh.complete_perform
    (fresh : engine.Fresh) (sound : engine.Sound) {call : Call}
    (valid : call.Valid) (accepts : ∀ id, call ≠ .acknowledge id true)
    {old view : View}
    (before : engine.sites.lookup? path identifier = some old)
    (found : (engine.perform call).2.sites.lookup? path identifier =
      some view)
    (complete : old.caches.visible.complete = true) :
    view.caches.visible.complete = true := by
  have advances := (course_perform sound valid).advances sound before found
  have known := (fresh.perform sound valid path identifier view found).known
  rw [(fresh path identifier old before).known, Bool.or_eq_true,
    (sound.sites.view before).located] at complete
  rw [advances.query, (sound.sites.view before).located] at known
  rw [known, Bool.or_eq_true]
  -- A cover that goes has been told to the server in the same call, which completes its data.
  rcases complete with server | covered
  · exact .inl (advances.keeps server)
  · rcases covered_perform sound valid accepts covered with
      still | ⟨write, member, contained⟩
    · exact .inr still
    · exact .inl (advances.learns write member contained)

/-- A view is there before the calls and after each of them. -/
def Lasts (path : Path) (identifier : String) : Engine → List Call → Prop
  | engine, [] => (engine.sites.lookup? path identifier).isSome = true
  | engine, call :: rest =>
      (engine.sites.lookup? path identifier).isSome = true ∧
        Lasts path identifier (engine.perform call).2 rest

private theorem Lasts.isSome
    {calls : List Call} (lasts : Lasts path identifier engine calls) :
    (engine.sites.lookup? path identifier).isSome = true := by
  cases calls with
  | nil => exact lasts
  | cons call rest => exact lasts.1

/-- As long as a view lasts, its query is the same, and it keeps complete data of the server. -/
theorem Lasts.server
    {calls : List Call} (lasts : Lasts path identifier engine calls)
    (sound : engine.Sound) (valid : ∀ call ∈ calls, call.Valid)
    {old view : View}
    (before : engine.sites.lookup? path identifier = some old)
    (found : (engine.after calls).sites.lookup? path identifier =
      some view) :
    view.query = old.query ∧
      (old.caches.server.complete = true →
        view.caches.server.complete = true) := by
  induction calls generalizing engine old with
  | nil =>
      cases before.symm.trans found
      exact ⟨rfl, id⟩
  | cons call rest inductionHypothesis =>
      obtain ⟨first, others⟩ := List.forall_mem_cons.mp valid
      obtain ⟨middle, isMiddle⟩ :=
        Option.isSome_iff_exists.mp lasts.2.isSome
      have advances :=
        (course_perform sound first).advances sound before isMiddle
      obtain ⟨query, keeps⟩ := inductionHypothesis lasts.2
        (sound.perform first) others isMiddle found
      exact ⟨query.trans advances.query, fun complete =>
        keeps (advances.keeps complete)⟩

/-- As long as a view lasts and no write is rejected, it goes on showing complete data. -/
theorem Lasts.visible
    {calls : List Call} (lasts : Lasts path identifier engine calls)
    (fresh : engine.Fresh) (sound : engine.Sound)
    (valid : ∀ call ∈ calls, call.Valid)
    (accepts : ∀ id, Call.acknowledge id true ∉ calls)
    {old view : View}
    (before : engine.sites.lookup? path identifier = some old)
    (found : (engine.after calls).sites.lookup? path identifier =
      some view)
    (complete : old.caches.visible.complete = true) :
    view.caches.visible.complete = true := by
  induction calls generalizing engine old with
  | nil =>
      cases before.symm.trans found
      exact complete
  | cons call rest inductionHypothesis =>
      obtain ⟨first, others⟩ := List.forall_mem_cons.mp valid
      obtain ⟨middle, isMiddle⟩ :=
        Option.isSome_iff_exists.mp lasts.2.isSome
      refine inductionHypothesis lasts.2 (fresh.perform sound first)
        (sound.perform first) others
        (fun id member => accepts id (List.mem_cons_of_mem call member))
        isMiddle found (fresh.complete_perform sound first ?_ before
          isMiddle complete)
      rintro id rfl
      exact accepts id List.mem_cons_self

/-- In every run, a view that has complete data of the server has them as long as it lasts, whatever
is called. What it shows completely is complete as long as it lasts and no write is rejected. -/
theorem completeness_lasts
    (config : Config) (earlier calls : List Call)
    (valid : ∀ call ∈ earlier ++ calls, call.Valid)
    (lasts : ((create config).after earlier).Lasts path identifier calls)
    {old view : View}
    (before : ((create config).after earlier).sites.lookup? path
      identifier = some old)
    (found : ((create config).after (earlier ++ calls)).sites.lookup? path
      identifier = some view) :
    (old.caches.server.complete = true →
        view.caches.server.complete = true) ∧
      ((∀ id, Call.acknowledge id true ∉ calls) →
        old.caches.visible.complete?.isSome = true →
          view.caches.visible.complete?.isSome = true) := by
  obtain ⟨earlierValid, callsValid⟩ := List.forall_mem_append.mp valid
  have sound := (Sound.create config).after earlierValid
  have fresh :=
    (fresh_create config).after (Sound.create config) earlierValid
  rw [after_append] at found
  refine ⟨(lasts.server sound callsValid before found).2, ?_⟩
  intro accepts
  rw [Cache.isSome_complete?, Cache.isSome_complete?]
  exact lasts.visible fresh sound callsValid accepts before found

def deepQuery : Query := { path := [⟨"a"⟩, ⟨"b"⟩, ⟨"c"⟩] }

/-- A view of which all is known through a local write further up. -/
def coverFromAbove : List Call :=
  [.userMerge [⟨"a"⟩] (.ofWrites [([⟨"b"⟩], .branch
    [(⟨"c"⟩, .ofScalar (.bool true))] none)]) 1,
    .register deepQuery (.all 1)]

theorem completeness_lasts_accepted_cover :
    ∃ old view,
      ((create { session := "" }).after coverFromAbove).sites.lookup?
          deepQuery.path deepQuery.identifier = some old ∧
        old.caches.server.complete = false ∧
        ((create { session := "" }).after (coverFromAbove ++
            [.acknowledge 2 false, .acknowledge 1 false])).sites.lookup?
          deepQuery.path deepQuery.identifier = some view ∧
        view.caches.visible.complete?.isSome = true := by
  have merged : (Overlay.ofWrites [([⟨"b"⟩], Node.branch
      [(⟨"c"⟩, .ofScalar (.bool true))] none)]).Valid :=
    Overlay.Valid.ofWrites fun write member => by
      rw [List.mem_singleton.mp member]
      exact Node.Canonical.empty.setDescendant
        (Node.Canonical.ofScalar (.bool true)) [⟨"c"⟩]
  have valid : ∀ call ∈ coverFromAbove ++
      [.acknowledge 2 false, .acknowledge 1 false], call.Valid := by
    simp [coverFromAbove, Call.Valid, merged]
  have lasts : Lasts deepQuery.path deepQuery.identifier
      ((create { session := "" }).after coverFromAbove)
      [.acknowledge 2 false, .acknowledge 1 false] :=
    ⟨rfl, rfl, rfl⟩
  obtain ⟨old, before, incomplete, known⟩ : ∃ old,
      ((create { session := "" }).after coverFromAbove).sites.lookup?
          deepQuery.path deepQuery.identifier = some old ∧
        old.caches.server.complete = false ∧
        old.caches.visible.complete?.isSome = true :=
    ⟨_, rfl, rfl, rfl⟩
  obtain ⟨view, found⟩ : ∃ view,
      ((create { session := "" }).after (coverFromAbove ++
          [.acknowledge 2 false, .acknowledge 1 false])).sites.lookup?
        deepQuery.path deepQuery.identifier = some view :=
    ⟨_, rfl⟩
  have completeness :=
    completeness_lasts _ coverFromAbove _ valid lasts before found
  exact ⟨old, view, before, incomplete, found,
    completeness.2 (by simp) known⟩

/-- With the rejection of the write the view is incomplete again. -/
example :
    (((create { session := "" }).after
        (coverFromAbove ++ [.acknowledge 1 true])).sites.view?
      deepQuery).map (·.caches.visible.complete?.isSome) = some false := by
  rfl

end Engine

end Replica
