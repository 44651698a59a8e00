import Replica.Proofs.Engine.Step
import Replica.Proofs.View.Reflection

/-!
# One truth behind all views

Every view keeps its own copy of the data of the server, and takes what concerns it of every call
that brings such data. As long as no call only announces that data is complete, all copies agree
with one tree that takes the same data from the root.
-/

namespace Replica

namespace Engine

/-- The true data of the server after a run: one tree that takes all nodes that the calls put in
place, in the order in which they do. -/
def truth : Engine → Node → List Call → Node
  | _, data, [] => data
  | engine, data, call :: rest =>
      truth (engine.perform call).2 (data.lay (engine.serverWrites call))
        rest

/-- The priority key occurs at most at the end of the locations of pending writes. -/
def Writable (engine : Engine) : Prop :=
  ∀ write ∈ engine.pending.writes, ∀ single ∈ write.writes,
    single.1.Writable

/-- Every view is at a location for data. -/
def OverData (engine : Engine) : Prop :=
  ∀ path identifier view,
    engine.sites.lookup? path identifier = some view → path.Unreserved

/-- Every view at a location for data reflects the true data. -/
structure Copies (engine : Engine) (data : Node) : Prop where
  canonical : data.Canonical
  views : ∀ path identifier view,
    engine.sites.lookup? path identifier = some view →
      path.Unreserved → view.Reflects (data.descendant path)

variable {engine : Engine} {data : Node}

theorem writable_create (config : Config) : (create config).Writable :=
  fun _ member => absurd member List.not_mem_nil

private theorem overData_create (config : Config) :
    (create config).OverData := by
  intro path identifier view found
  cases found

theorem copies_create (config : Config) :
    (create config).Copies .empty := by
  refine ⟨Node.Canonical.empty, fun path identifier view found => ?_⟩
  cases found

/-! ## Written locations -/

theorem Writable.perform
    (writable : engine.Writable) (sound : engine.Sound)
    {call : Call} (valid : call.Valid) (callWritable : call.Writable) :
    (engine.perform call).2.Writable := by
  intro write member
  rcases (course_perform sound valid).mem_pending write member with
    old | made
  · exact writable write old
  · cases call with
    | userOverwrite path node id visible =>
        cases made
        intro single singleMember
        have alone := Overlay.writesBelow_ofNode path node
        change single ∈ (Overlay.ofNode node).writesBelow path
          at singleMember
        rw [alone, List.mem_singleton] at singleMember
        rw [singleMember]
        exact callWritable
    | userMerge path nodes id =>
        cases made
        exact callWritable
    | _ => cases made

theorem Writable.after
    (writable : engine.Writable) (sound : engine.Sound)
    {calls : List Call} (valid : ∀ call ∈ calls, call.Valid)
    (callsWritable : ∀ call ∈ calls, call.Writable) :
    (engine.after calls).Writable :=
  sound.after_of_admitted Writable Call.Writable
    (fun before callValid callWritable writable =>
      writable.perform before callValid callWritable) writable valid
    callsWritable

theorem Writable.serverWrites
    (writable : engine.Writable) {call : Call}
    (callWritable : call.Writable) :
    ∀ write ∈ engine.serverWrites call, write.1.Writable := by
  intro write member
  cases call with
  | serverOverwrite path node =>
      rw [List.mem_singleton.mp member]
      exact callWritable
  | serverMerge path nodes => exact callWritable write member
  | acknowledge id rejected =>
      cases rejected with
      | true => cases member
      | false =>
          change write ∈
            ((engine.pending.writes.find? (·.id == id)).map
              Write.writes).getD [] at member
          cases found : engine.pending.writes.find? (·.id == id) with
          | none =>
              rw [found] at member
              cases member
          | some pendingWrite =>
              rw [found] at member
              exact writable pendingWrite (List.mem_of_find?_eq_some found)
                write member
  | _ => cases member

/-! ## Locations of views -/

private theorem OverData.perform
    (overData : engine.OverData) (sound : engine.Sound)
    {call : Call} (valid : call.Valid) (queriesData : call.QueriesData) :
    (engine.perform call).2.OverData := by
  intro path identifier view found
  cases (course_perform sound valid).origin sound found with
  | kept oldFound => exact overData path identifier _ oldFound
  | took oldFound => exact overData path identifier _ oldFound
  | created isCall located =>
      subst isCall
      subst located
      exact queriesData

private theorem OverData.after
    (overData : engine.OverData) (sound : engine.Sound)
    {calls : List Call} (valid : ∀ call ∈ calls, call.Valid)
    (queriesData : ∀ call ∈ calls, call.QueriesData) :
    (engine.after calls).OverData :=
  sound.after_of_admitted OverData Call.QueriesData
    (fun before callValid callQueries overData =>
      overData.perform before callValid callQueries) overData valid
    queriesData

/-! ## Answers -/

/-- What any of the sites can answer for a location for data is true. -/
theorem Copies.serverNode?
    (copies : engine.Copies data) (sound : engine.Sound)
    {path : Path} (unreserved : path.Unreserved) {strictly : Bool}
    {node : Node}
    (answer : engine.sites.serverNode? path strictly = some node) :
    node ≈ data.descendant path := by
  obtain ⟨⟨above, site⟩, siteMember, siteAnswer⟩ :=
    List.exists_of_findSome?_eq_some answer
  dsimp only at siteAnswer
  split at siteAnswer
  · cases siteAnswer
  · obtain ⟨below, location, known⟩ :=
      Option.bind_eq_some_iff.mp siteAnswer
    obtain ⟨⟨identifier, view⟩, viewMember, viewAnswer⟩ :=
      List.exists_of_findSome?_eq_some known
    have found := sound.sites.lookup?_of_mem siteMember viewMember
    rw [Path.below?_eq_some_iff.mp location] at unreserved ⊢
    have reflects := copies.views above identifier view found
      (Path.unreserved_append_iff.mp unreserved).1
    rw [Node.descendant_append]
    exact reflects.answer viewAnswer

/-! ## Runs -/

/-- A call that brings data of the server keeps a view at a location for data in step, if it was in
step and the data of a new view are true. -/
theorem Origin.reflects
    {next : Engine} {call : Call} {path : Path} {identifier : String}
    {view : View}
    (origin : Origin engine next call path identifier view)
    (sound : engine.Sound) (unreserved : path.Unreserved)
    (dataCanonical : data.Canonical)
    (canonical : ∀ write ∈ engine.serverWrites call, write.2.Canonical)
    (writes : ∀ write ∈ engine.serverWrites call, write.1.Writable)
    (incomplete : call.completes = false)
    (inStep : ∀ old, engine.sites.lookup? path identifier = some old →
      old.Reflects (data.descendant path))
    (answers : ∀ node,
      engine.sites.serverNode? path false = some node →
        node ≈ data.descendant path) :
    view.Reflects ((data.lay (engine.serverWrites call)).descendant
      path) := by
  have seen := Node.descendant_lay dataCanonical unreserved canonical
  cases origin with
  | kept oldFound query caches _ _ _ unsaid =>
      have oldReflects := inStep _ oldFound
      rw [unsaid, Node.lay_nil] at seen
      unfold View.Reflects View.filter
      rw [caches, query]
      exact oldReflects.congr (Setoid.symm seen)
  | @took old operation relative ancestor? oldFound _ shows _ _ result said
      completes =>
      have oldReflects := inStep _ oldFound
      have received :
          Caches.receive old.filter old.caches relative =
            Caches.learn old.filter old.caches relative.serverWrites :=
        Caches.receive_of_incomplete _ _ (completes.trans incomplete)
      have learned :=
        oldReflects.learn (dataCanonical.descendant path)
          shows.valid.canonical_of_mem_serverWrites (by
            intro write member
            rw [said] at member
            obtain ⟨whole, wholeMember, isSeen⟩ :=
              List.mem_filterMap.mp member
            exact Overlay.writable_of_seenFrom (writes whole wholeMember)
              isSeen)
      rw [← received, said] at learned
      have agrees := learned.congr (Setoid.symm seen)
      rw [result]
      exact ⟨agrees.canonical, agrees.filtered, agrees.bare, agrees.whole,
        agrees.parts⟩
  | @created query registration isCall located isQuery caches _ =>
      subst isCall
      subst located
      unfold View.Reflects View.filter
      rw [caches, isQuery]
      refine Caches.reflects_select
        (Sites.canonical_serverCache sound.sites query.path) _
        fun complete => ?_
      change (engine.sites.serverCache query.path).node ≈
        data.descendant query.path
      unfold Sites.serverCache at complete ⊢
      cases known : engine.sites.serverNode? query.path false with
      | some node => exact answers node known
      | none =>
          rw [known] at complete
          cases complete

/-- Every call that brings data of the server keeps all copies in step. -/
theorem Copies.perform
    (copies : engine.Copies data) (sound : engine.Sound)
    (writable : engine.Writable) {call : Call} (valid : call.Valid)
    (callWritable : call.Writable) (incomplete : call.completes = false) :
    (engine.perform call).2.Copies
      (data.lay (engine.serverWrites call)) := by
  have course := course_perform sound valid
  have canonical := course.canonical_serverWrites
  refine ⟨copies.canonical.lay canonical, ?_⟩
  intro path identifier view found unreserved
  exact (course.origin sound found).reflects sound unreserved
    copies.canonical canonical (writable.serverWrites callWritable)
    incomplete
    (fun old oldFound =>
      copies.views path identifier old oldFound unreserved)
    fun _ answer => copies.serverNode? sound unreserved answer

/-- All copies stay in step with one tree. -/
theorem Copies.after
    (copies : engine.Copies data) (sound : engine.Sound)
    (writable : engine.Writable) {calls : List Call}
    (valid : ∀ call ∈ calls, call.Valid)
    (callsWritable : ∀ call ∈ calls, call.Writable)
    (incomplete : ∀ call ∈ calls, call.completes = false) :
    (engine.after calls).Copies (engine.truth data calls) := by
  induction calls generalizing engine data with
  | nil => exact copies
  | cons call rest inductionHypothesis =>
      obtain ⟨first, others⟩ := List.forall_mem_cons.mp valid
      obtain ⟨firstWritable, otherWritable⟩ :=
        List.forall_mem_cons.mp callsWritable
      obtain ⟨firstIncomplete, otherIncomplete⟩ :=
        List.forall_mem_cons.mp incomplete
      exact inductionHypothesis
        (copies.perform sound writable first firstWritable firstIncomplete)
        (sound.perform first) (writable.perform sound first firstWritable)
        others otherWritable otherIncomplete

/-- What the views know completely of the data of the server agrees with one tree, and so do any
two views that can answer for the same location. -/
structure Agrees (engine : Engine) (data : Node) : Prop where
  whole : ∀ path view, engine.Live path view →
    view.query.selection.keepsAll = true →
    view.caches.server.complete = true →
    view.caches.server.node.same (data.descendant path) = true
  parts : ∀ path view, engine.Live path view →
    view.query.selection.keepsAll = false →
    view.caches.server.complete = true →
    ∀ entry ∈ view.caches.server.node.children,
      entry.2.same (data.descendant (path ++ [entry.1])) = true
  answers : ∀ path view other otherView,
    engine.Live path view → engine.Live other otherView →
    ∀ below otherBelow node otherNode,
      path ++ below = other ++ otherBelow →
      view.serverNode? below = some node →
      otherView.serverNode? otherBelow = some otherNode →
      node.same otherNode = true

private theorem Copies.agrees
    (copies : engine.Copies data) (overData : engine.OverData)
    (sound : engine.Sound) : engine.Agrees data := by
  have known {path : Path} {view : View} (live : engine.Live path view) :
      view.Reflects (data.descendant path) := by
    obtain ⟨identifier, found⟩ := sound.lookup?_of_live live
    exact copies.views path identifier view found
      (overData path identifier view found)
  constructor
  · intro path view live keepsAll complete
    exact (known live).whole (View.drops_of_keepsAll keepsAll) complete
  · intro path view live keepsAll complete entry member
    have copy := known live
    have drops : view.filter.drops = true :=
      View.drops_of_keepsAll keepsAll
    have unreserved := copy.canonical.unreserved_of_mem_children member
    have isChild := Node.child_of_mem_children copy.canonical member
    have agrees :=
      copy.parts drops complete entry.1 unreserved (by
        rw [isChild]
        exact copy.canonical.nonempty_of_mem_children member)
    rw [isChild] at agrees
    rw [Node.descendant_append]
    exact agrees
  · intro path view other otherView live otherLive below otherBelow node
      otherNode location answer otherAnswer
    have first := (known live).answer answer
    have second := (known otherLive).answer otherAnswer
    rw [← Node.descendant_append] at first second
    rw [← location] at second
    exact Setoid.trans first (Setoid.symm second)

/-- In every state that a run without notices of completion reaches, all views agree with the one
tree that took the same data of the server. -/
theorem server_data_agrees
    (config : Config) (calls : List Call)
    (valid : ∀ call ∈ calls, call.Valid)
    (queriesData : ∀ call ∈ calls, call.QueriesData)
    (writable : ∀ call ∈ calls, call.Writable)
    (incomplete : ∀ call ∈ calls, call.completes = false) :
    ((create config).after calls).Agrees
      ((create config).truth .empty calls) := by
  have start := Sound.create config
  have copies :=
    (copies_create config).after start (writable_create config) valid
      writable incomplete
  have overData := (overData_create config).after start valid queriesData
  exact copies.agrees overData (start.after valid)

/-- Two listeners, one of which asks for a single child, and data that partly comes from an
accepted local write. -/
def acceptedWrite : List Call :=
  [.register { path := [] } (.all 1),
    .register { path := [], selection := { limit? := some (.first 1) } }
      (.all 2),
    .serverOverwrite [] (.ofScalar (.bool true)),
    .serverOverwrite [⟨"b"⟩] (.ofScalar (.bool false)),
    .userOverwrite [⟨"a"⟩] (.ofScalar (.bool false)) 1 true,
    .acknowledge 1 false]

theorem server_data_agrees_after_accepted_write :
    ((create { session := "" }).after acceptedWrite).Agrees
      ((create { session := "" }).truth .empty acceptedWrite) := by
  have valid : ∀ call ∈ acceptedWrite, call.Valid := by
    simp [acceptedWrite, Call.Valid, Node.Canonical.ofScalar]
  have queriesData : ∀ call ∈ acceptedWrite, call.QueriesData := by
    simp [acceptedWrite, Call.QueriesData, Path.Unreserved]
  have writable : ∀ call ∈ acceptedWrite, call.Writable := by
    simp [acceptedWrite, Call.Writable, Path.Writable, Path.Unreserved]
  have incomplete : ∀ call ∈ acceptedWrite, call.completes = false := by
    simp [acceptedWrite, Call.completes]
  exact server_data_agrees _ _ valid queriesData writable incomplete

end Engine

end Replica
