import Replica.Proofs.Engine.Completion
import Replica.Proofs.Pending.Replay

/-!
# Hidden writes

Views read the pending writes through the overlay of the visible ones alone. A hidden write is in
the list of pending writes and nowhere in the overlay, however often the overlay is laid anew. So
two runs that differ by a hidden write give the same answers and hold the same views, until the
hidden write itself is answered; and if it is rejected, nothing is left of it.
-/

namespace Replica

/-! ## What views read -/

section

variable {pending other : Pending} (same : other.overlay = pending.overlay)

include same

private theorem Pending.node?_of_overlay (path : Path) (server? : Option Node) :
    other.node? path server? false = pending.node? path server? false := by
  have visible (some : Pending) : some.overlayOf false = some.overlay := rfl
  simp only [Pending.node?, visible, same]

namespace Vantage

variable (path : Path)

private theorem shadow?_of_overlay (below : Path) :
    (other.at path).shadow? below = (pending.at path).shadow? below := by
  simp only [shadow?, Pending.at, same]

private theorem overlay_of_overlay :
    (other.at path).overlay = (pending.at path).overlay := by
  simp only [overlay, Pending.at, same]

private theorem node?_of_overlay (server? : Option Node) :
    (other.at path).node? server? = (pending.at path).node? server? :=
  Pending.node?_of_overlay same path server?

private theorem children_of_overlay (server? : Option Node) :
    (other.at path).children server? =
      (pending.at path).children server? := by
  simp only [children, shadow?_of_overlay same, overlay_of_overlay same]

private theorem child?_of_overlay (key : Key) (server : Cache) :
    (other.at path).child? key server =
      (pending.at path).child? key server := by
  simp only [child?, Pending.at, same]

private theorem known_of_overlay (server? : Option Node) :
    (other.at path).known server? = (pending.at path).known server? := by
  simp only [known, overlay_of_overlay same]

end Vantage

namespace Caches

private theorem visibleNode_of_overlay (path : Path) (server : Cache) :
    visibleNode server (other.at path) =
      visibleNode server (pending.at path) := by
  simp only [visibleNode, Vantage.shadow?_of_overlay same,
    Vantage.node?_of_overlay same, Vantage.children_of_overlay same]

private theorem refresh_of_overlay
    (path : Path) (filter : Filter) (caches : Caches) (scope : Scope)
    (ancestor? : Option Node) :
    caches.refresh filter scope (other.at path) ancestor? =
      caches.refresh filter scope (pending.at path) ancestor? := by
  have child (known : Node) :
      refreshChild filter caches.server (other.at path) known =
        refreshChild filter caches.server (pending.at path) known := by
    funext progress key
    simp only [refreshChild, Vantage.child?_of_overlay same]
  have leaf (progress : Progress) :
      refreshLeaf filter caches.server (other.at path) progress =
        refreshLeaf filter caches.server (pending.at path) progress := by
    simp only [refreshLeaf, Vantage.node?_of_overlay same]
  simp only [refresh, visibleNode_of_overlay same,
    Vantage.known_of_overlay same, Vantage.shadow?_of_overlay same, child,
    leaf]

end Caches

private theorem View.apply_of_overlay
    (path : Path) (view : View) (operation : Operation)
    (ancestor? : Option Node) :
    view.apply operation (other.at path) ancestor? =
      view.apply operation (pending.at path) ancestor? := by
  simp only [View.apply, Caches.apply, Caches.refresh_of_overlay same]

private theorem View.create_of_overlay
    (query : Query) (server : Cache) (path : Path) :
    View.create query server (other.at path) =
      View.create query server (pending.at path) := by
  simp only [View.create, Caches.visibleNode_of_overlay same,
    Vantage.shadow?_of_overlay same]

private theorem Site.apply_of_overlay
    (path : Path) (operation : Operation) (ancestor? : Option Node)
    (site : Site) :
    site.apply operation (other.at path) ancestor? =
      site.apply operation (pending.at path) ancestor? := by
  induction site with
  | nil => rfl
  | cons entry rest inductionHypothesis =>
      simp only [Site.apply, View.apply_of_overlay same,
        inductionHypothesis]

private theorem Site.register_of_overlay
    (path : Path) (site : Site) (query : Query)
    (registration : Registration) (server : Cache) :
    site.register query registration server (other.at path) =
      site.register query registration server (pending.at path) := by
  simp only [Site.register, View.create_of_overlay same]

/-- Routing reads the pending writes through their overlay alone. -/
theorem Sites.route_of_overlay (sites : Sites) (operation : Operation) :
    sites.route operation other = sites.route operation pending := by
  have step : Sites.step operation other = Sites.step operation pending := by
    funext routed path
    simp only [Sites.step, Site.apply_of_overlay same]
  simp only [Sites.route, step]

end

/-! ## Answers -/

inductive Answer where
  | events (result : Except SyncError (List Event))
  | detached (found : Bool)
  | revoked (queries : List (Query × List ListenerId))

def Answer.succeeded : Answer → Bool
  | .events (.error _) => false
  | _ => true

namespace Engine

def answer (engine : Engine) : Call → Answer
  | .userOverwrite path node id visible =>
      .events (engine.userOverwrite path node id visible).result
  | .userMerge path nodes id => .events (engine.userMerge path nodes id).result
  | .acknowledge id rejected => .events (engine.acknowledge id rejected).result
  | .serverOverwrite path node => .events (engine.serverOverwrite path node).result
  | .serverMerge path nodes => .events (engine.serverMerge path nodes).result
  | .listenComplete path => .events (engine.listenComplete path).result
  | .register query registration => .events (engine.register query registration).result
  | .unregister query listener => .detached (engine.unregister query listener).1
  | .removeListener listener => .detached (engine.removeListener listener).1
  | .revoke path => .revoked (engine.revoke path).1

def answers : Engine → List Call → List Answer
  | _, [] => []
  | engine, call :: rest => engine.answer call :: answers (engine.perform call).2 rest

private theorem answers_append (engine : Engine) (first second : List Call) :
    engine.answers (first ++ second) =
      engine.answers first ++ (engine.after first).answers second := by
  induction first generalizing engine with
  | nil => rfl
  | cons call rest inductionHypothesis =>
      exact congrArg (engine.answer call :: ·)
        (inductionHypothesis (engine.perform call).2)

end Engine

/-! ## One hidden write more -/

/-- The second pending writes are the first ones and a hidden one more, which is the first of its
id. -/
structure Pending.Hides (hidden : Write) (pending other : Pending) : Prop where
  writes : ∃ before after, pending.writes = before ++ after ∧
    other.writes = before ++ hidden :: after ∧
      ∀ write ∈ before, write.id ≠ hidden.id
  overlay : other.overlay = pending.overlay

namespace Pending

variable {hidden : Write} {pending other : Pending}

private theorem hides_add
    (ranked : pending.Ranked) (isHidden : hidden.visible = false)
    (added : pending.add hidden = .ok other) :
    pending.Hides hidden other := by
  obtain ⟨writes, overlay⟩ := add_eq_ok added
  rw [isHidden, if_neg Bool.false_ne_true] at overlay
  refine ⟨⟨pending.writes, [], (List.append_nil _).symm, writes, ?_⟩,
    overlay⟩
  intro write member
  obtain ⟨last, isLast, bounded⟩ := ranked.last write member
  have above := (last_lt_of_add added).2 last isLast
  exact Nat.ne_of_lt (Nat.lt_of_le_of_lt bounded above)

private theorem Hides.add
    (hides : pending.Hides hidden other) {write : Write}
    {next otherNext : Pending} (added : pending.add write = .ok next)
    (otherAdded : other.add write = .ok otherNext) :
    next.Hides hidden otherNext := by
  obtain ⟨before, after, writes, otherWrites, first⟩ := hides.writes
  obtain ⟨added, overlay⟩ := add_eq_ok added
  obtain ⟨otherAdded, otherOverlay⟩ := add_eq_ok otherAdded
  refine ⟨⟨before, after ++ [write], ?_, ?_, first⟩, ?_⟩
  · rw [added, writes, List.append_assoc]
  · rw [otherAdded, otherWrites, List.append_assoc, List.cons_append]
  · rw [overlay, otherOverlay, hides.overlay]

/-- The same write is removed from both, and the overlay is laid anew without the hidden one. -/
theorem Hides.remove
    (hides : pending.Hides hidden other) (isHidden : hidden.visible = false)
    {id : WriteId} (another : hidden.id ≠ id) :
    match pending.remove id with
    | .error error => other.remove id = .error error
    | .ok (write, next) => ∃ otherNext,
        other.remove id = .ok (write, otherNext) ∧
          next.Hides hidden otherNext := by
  obtain ⟨before, after, writes, otherWrites, first⟩ := hides.writes
  have passed : (hidden.id == id) = false := by simpa using another
  have found : other.writes.find? (·.id == id) =
      pending.writes.find? (·.id == id) := by
    rw [writes, otherWrites, List.find?_append, List.find?_append,
      List.find?_cons_of_neg (by simp [passed])]
  have layered (upper lower : List Write) :
      (upper ++ hidden :: lower).filter (·.visible) =
        (upper ++ lower).filter (·.visible) := by
    rw [List.filter_append, List.filter_append,
      List.filter_cons_of_neg (by simp [isHidden])]
  have left : ∃ upper lower,
      pending.writes.eraseP (·.id == id) = upper ++ lower ∧
        other.writes.eraseP (·.id == id) = upper ++ hidden :: lower ∧
          ∀ write ∈ upper, write.id ≠ hidden.id := by
    rw [writes, otherWrites, List.eraseP_append, List.eraseP_append,
      List.eraseP_cons_of_neg (by simp [passed])]
    split
    · exact ⟨_, _, rfl, rfl, fun write member =>
        first write (List.mem_of_mem_eraseP member)⟩
    · exact ⟨_, _, rfl, rfl, first⟩
  unfold Pending.remove
  rw [found]
  cases pending.writes.find? (·.id == id) with
  | none => rfl
  | some write =>
      refine ⟨_, rfl, left, ?_⟩
      obtain ⟨upper, lower, isLeft, otherLeft, _⟩ := left
      dsimp only
      rw [isLeft, otherLeft, layered, hides.overlay]

/-- Without the hidden write the writes and the overlay are the same. -/
theorem Hides.remove_hidden
    (hides : pending.Hides hidden other)
    (isHidden : hidden.visible = false) :
    ∃ next, other.remove hidden.id = .ok (hidden, next) ∧
      next.writes = pending.writes ∧ next.overlay = pending.overlay := by
  obtain ⟨before, after, writes, otherWrites, first⟩ := hides.writes
  have passed : ∀ write ∈ before, ¬(write.id == hidden.id) = true :=
    fun write member => by simpa using first write member
  have found : other.writes.find? (·.id == hidden.id) = some hidden := by
    rw [otherWrites, List.find?_append, List.find?_eq_none.mpr passed,
      Option.none_or]
    exact List.find?_cons_of_pos (beq_self_eq_true hidden.id)
  unfold Pending.remove
  rw [found]
  refine ⟨_, rfl, ?_, ?_⟩
  · dsimp only
    rw [otherWrites, List.eraseP_append_right _ passed, writes]
    exact congrArg (before ++ ·)
      (List.eraseP_cons_of_pos (beq_self_eq_true hidden.id))
  · dsimp only
    rw [isHidden, if_neg Bool.false_ne_true, hides.overlay]

end Pending

namespace Engine

/-- The second engine is the first one with a hidden pending write more. -/
structure Hides (hidden : Write) (engine other : Engine) : Prop where
  pending : engine.pending.Hides hidden other.pending
  sites : other.sites = engine.sites
  signals : other.signals = engine.signals

variable {hidden : Write} {engine other : Engine}

/-- An operation is answered alike by both engines, and fails in both or in none. -/
theorem Hides.run
    (hides : engine.Hides hidden other) (operation : Operation)
    {pending otherPending : Pending}
    (nextHides : pending.Hides hidden otherPending)
    (counters otherCounters : Counters) :
    let reply := ({ engine with counters := counters } : Engine).run
      operation pending
    let otherReply := ({ other with counters := otherCounters } : Engine).run
      operation otherPending
    otherReply.result = reply.result ∧
      reply.engine.Hides hidden otherReply.engine := by
  dsimp only
  unfold Engine.run
  dsimp only
  rw [hides.sites, Sites.route_of_overlay nextHides.overlay]
  cases engine.sites.route operation pending with
  | error failure => exact ⟨rfl, hides.pending, rfl, hides.signals⟩
  | ok routed => exact ⟨rfl, nextHides, rfl, hides.signals⟩

/-- A write that both engines accept is answered alike, and the other one has the hidden write
more still. -/
theorem Hides.add
    (hides : engine.Hides hidden other) (write : Write)
    (operation : Operation) (counters otherCounters : Counters)
    {reply otherReply : Reply (List Event)}
    (replied : reply =
      match engine.pending.add write with
      | .error error => engine.fail error
      | .ok pending =>
        let counted := { engine with counters := counters }
        if write.visible then counted.run operation pending
        else { counted with pending := pending }.succeed [])
    (otherReplied : otherReply =
      match other.pending.add write with
      | .error error => other.fail error
      | .ok pending =>
        let counted := { other with counters := otherCounters }
        if write.visible then counted.run operation pending
        else { counted with pending := pending }.succeed [])
    (accepted : (Answer.events reply.result).succeeded = true)
    (otherAccepted : (Answer.events otherReply.result).succeeded = true) :
    otherReply.result = reply.result ∧
      reply.engine.Hides hidden otherReply.engine := by
  cases added : engine.pending.add write with
  | error failure =>
      rw [added] at replied
      subst replied
      cases accepted
  | ok pending =>
      cases otherAdded : other.pending.add write with
      | error failure =>
          rw [otherAdded] at otherReplied
          subst otherReplied
          cases otherAccepted
      | ok otherPending =>
          have nextHides := hides.pending.add added otherAdded
          rw [added] at replied
          rw [otherAdded] at otherReplied
          subst replied otherReplied
          cases visible : write.visible with
          | true => exact hides.run operation nextHides _ _
          | false => exact ⟨rfl, nextHides, hides.sites, hides.signals⟩

private theorem Hides.acknowledge
    (hides : engine.Hides hidden other) (isHidden : hidden.visible = false)
    {id : WriteId} (another : hidden.id ≠ id) (rejected : Bool) :
    (other.acknowledge id rejected).result =
        (engine.acknowledge id rejected).result ∧
      (engine.acknowledge id rejected).engine.Hides hidden
        (other.acknowledge id rejected).engine := by
  have removed := hides.pending.remove isHidden another
  unfold Engine.acknowledge
  cases isRemoved : engine.pending.remove id with
  | error failure =>
      rw [isRemoved] at removed
      dsimp only at removed
      rw [removed]
      exact ⟨rfl, hides.pending, hides.sites, hides.signals⟩
  | ok taken =>
      rw [isRemoved] at removed
      obtain ⟨otherNext, otherRemoved, nextHides⟩ := removed
      rw [otherRemoved]
      dsimp only
      split
      · exact ⟨rfl, nextHides, hides.sites, hides.signals⟩
      · exact hides.run _ nextHides _ _

private theorem Hides.register
    (hides : engine.Hides hidden other) (query : Query)
    (registration : Registration) :
    (other.register query registration).result =
        (engine.register query registration).result ∧
      (engine.register query registration).engine.Hides hidden
        (other.register query registration).engine := by
  unfold Engine.register
  cases query.selection.validate with
  | error failure => exact ⟨rfl, hides⟩
  | ok _ =>
      dsimp only
      rw [hides.sites, hides.signals,
        Site.register_of_overlay hides.pending.overlay]
      split
      · exact ⟨rfl, hides.pending, rfl, rfl⟩
      · exact ⟨rfl, hides.pending, rfl, rfl⟩

private theorem Hides.detach
    (hides : engine.Hides hidden other) (path : Path)
    (identifier? : Option String) (listener : ListenerId) :
    (other.detach path identifier? listener).1 =
        (engine.detach path identifier? listener).1 ∧
      (engine.detach path identifier? listener).2.Hides hidden
        (other.detach path identifier? listener).2 := by
  unfold Engine.detach
  rw [hides.sites]
  cases Sorted.find? path engine.sites with
  | none => exact ⟨rfl, hides⟩
  | some site =>
      refine ⟨rfl, hides.pending, ?_, ?_⟩
      · simp only [release, hides.sites]
      · simp only [release, hides.signals]

private theorem Hides.removeListener
    (hides : engine.Hides hidden other) (listener : ListenerId) :
    (other.removeListener listener).1 = (engine.removeListener listener).1 ∧
      (engine.removeListener listener).2.Hides hidden
        (other.removeListener listener).2 := by
  have same : other.sites.map (·.1) = engine.sites.map (·.1) := by
    rw [hides.sites]
  unfold Engine.removeListener
  rw [same]
  refine List.foldl_rel
    (r := fun otherReached reached : Bool × Engine =>
      otherReached.1 = reached.1 ∧
        reached.2.Hides hidden otherReached.2)
    ⟨rfl, hides⟩ ?_
  rintro path _ ⟨otherFound, otherEngine⟩ ⟨found, engine⟩ ⟨sameFound, hides⟩
  obtain ⟨here, nextHides⟩ := hides.detach path none listener
  dsimp only at sameFound here ⊢
  exact ⟨by rw [sameFound, here], nextHides⟩

private theorem Hides.revoke
    (hides : engine.Hides hidden other) (path : Path) :
    (other.revoke path).1 = (engine.revoke path).1 ∧
      (engine.revoke path).2.Hides hidden (other.revoke path).2 := by
  unfold Engine.revoke
  rw [hides.sites]
  exact ⟨rfl, hides.pending, rfl, hides.signals⟩

/-- A hidden write that is accepted tells nothing, and is all that sets the engines apart. -/
theorem hides_userOverwrite
    (ranked : engine.pending.Ranked) {path : Path} {node : Node} {id : WriteId}
    (accepted : (engine.answer
      (.userOverwrite path node id false)).succeeded = true) :
    engine.answer (.userOverwrite path node id false) = .events (.ok []) ∧
      engine.Hides ⟨id, path, .overwrite node, false⟩
        (engine.perform (.userOverwrite path node id false)).2 := by
  cases added : engine.pending.add ⟨id, path, .overwrite node, false⟩ with
  | error failure =>
      rw [answer, userOverwrite, Pending.addOverwrite, added] at accepted
      cases accepted
  | ok pending =>
      have performed : engine.userOverwrite path node id false =
          ({ engine with
            counters := engine.counters.countUserWrite
            pending := pending } : Engine).succeed [] := by
        rw [userOverwrite, Pending.addOverwrite, added]
        rfl
      rw [answer, perform, performed]
      exact ⟨rfl, Pending.hides_add ranked rfl added, rfl, rfl⟩

/-- A call that both engines accept and that does not answer the hidden write is answered alike,
and the hidden write stays the only difference. -/
theorem Hides.perform
    (hides : engine.Hides hidden other) (isHidden : hidden.visible = false)
    {call : Call} (accepted : (engine.answer call).succeeded = true)
    (otherAccepted : (other.answer call).succeeded = true)
    (unanswered : ∀ rejected, call ≠ .acknowledge hidden.id rejected) :
    other.answer call = engine.answer call ∧
      (engine.perform call).2.Hides hidden (other.perform call).2 := by
  have replied {reply otherReply : Reply (List Event)}
      (alike : otherReply.result = reply.result ∧
        reply.engine.Hides hidden otherReply.engine) :
      Answer.events otherReply.result = .events reply.result ∧
        reply.outcome.2.Hides hidden otherReply.outcome.2 := by
    rw [Reply.engine_outcome, Reply.engine_outcome]
    exact ⟨congrArg Answer.events alike.1, alike.2⟩
  cases call with
  | userOverwrite path node id visible =>
      exact replied (hides.add ⟨id, path, .overwrite node, visible⟩
        (.overwrite .user path node) _ _ rfl rfl accepted otherAccepted)
  | userMerge path nodes id =>
      exact replied (hides.add ⟨id, path, .merge nodes, true⟩
        (.merge .user path nodes) _ _ rfl rfl accepted otherAccepted)
  | acknowledge id rejected =>
      have another : hidden.id ≠ id := by
        rintro rfl
        exact unanswered rejected rfl
      exact replied (hides.acknowledge isHidden another rejected)
  | serverOverwrite path node =>
      exact replied (hides.run (.overwrite .server path node)
        hides.pending _ _)
  | serverMerge path nodes =>
      exact replied (hides.run (.merge .server path nodes) hides.pending _ _)
  | listenComplete path =>
      exact replied (hides.run (.listenComplete path) hides.pending _ _)
  | register query registration =>
      exact replied (hides.register query registration)
  | unregister query listener =>
      obtain ⟨same, nextHides⟩ :=
        hides.detach query.path (some query.identifier) listener
      exact ⟨congrArg Answer.detached same, nextHides⟩
  | removeListener listener =>
      obtain ⟨same, nextHides⟩ := hides.removeListener listener
      exact ⟨congrArg Answer.detached same, nextHides⟩
  | revoke path =>
      obtain ⟨same, nextHides⟩ := hides.revoke path
      exact ⟨congrArg Answer.revoked same, nextHides⟩

/-- Runs that both engines accept are answered alike until the hidden write is answered. -/
theorem Hides.after
    (hides : engine.Hides hidden other) (isHidden : hidden.visible = false)
    {calls : List Call}
    (accepted : ∀ answer ∈ engine.answers calls, answer.succeeded = true)
    (otherAccepted : ∀ answer ∈ other.answers calls,
      answer.succeeded = true)
    (unanswered : ∀ rejected, .acknowledge hidden.id rejected ∉ calls) :
    other.answers calls = engine.answers calls ∧
      (engine.after calls).Hides hidden (other.after calls) := by
  induction calls generalizing engine other with
  | nil => exact ⟨rfl, hides⟩
  | cons call rest inductionHypothesis =>
      obtain ⟨first, others⟩ := List.forall_mem_cons.mp accepted
      obtain ⟨otherFirst, otherOthers⟩ :=
        List.forall_mem_cons.mp otherAccepted
      obtain ⟨same, nextHides⟩ := hides.perform isHidden first otherFirst
        fun rejected isAnswer => unanswered rejected
          (isAnswer ▸ List.mem_cons_self)
      obtain ⟨sameLater, laterHides⟩ := inductionHypothesis nextHides others
        otherOthers fun rejected member => unanswered rejected
          (List.mem_cons_of_mem _ member)
      refine ⟨?_, laterHides⟩
      rw [answers, answers, same, sameLater]

/-- The rejected hidden write leaves nothing behind. -/
theorem Hides.reject
    (hides : engine.Hides hidden other) (isHidden : hidden.visible = false) :
    (other.acknowledge hidden.id true).result = .ok [] ∧
      (other.acknowledge hidden.id true).engine.sites = engine.sites ∧
      (other.acknowledge hidden.id true).engine.signals = engine.signals ∧
      (other.acknowledge hidden.id true).engine.pending.writes =
        engine.pending.writes ∧
      (other.acknowledge hidden.id true).engine.pending.overlay =
        engine.pending.overlay := by
  obtain ⟨next, removed, writes, overlay⟩ :=
    hides.pending.remove_hidden isHidden
  rw [Engine.acknowledge, removed]
  dsimp only
  rw [if_pos (by simp [isHidden])]
  exact ⟨rfl, hides.sites, hides.signals, writes, overlay⟩

/-! ## Runs -/

private theorem ranked_after
    (sound : engine.Sound) (ranked : engine.pending.Ranked)
    {calls : List Call} (valid : ∀ call ∈ calls, call.Valid) :
    (engine.after calls).pending.Ranked := by
  refine sound.after_of_perform (fun reached => reached.pending.Ranked)
    (fun before callValid ranked => ?_) ranked valid
  have queues := queues_perform before callValid
  generalize (Engine.perform _ _).2.pending = next at queues ⊢
  cases queues with
  | kept => exact ranked
  | added _ added => exact ranked.add added
  | removed _ removed => exact (ranked.remove removed).1

/-- Two engines that hold the same views, have told the connection the same, and know the same data.
-/
structure Alike (engine other : Engine) : Prop where
  sites : other.sites = engine.sites
  signals : other.signals = engine.signals
  latest : ∀ query, other.latest? query = engine.latest? query
  node : ∀ path, other.node? path = engine.node? path

private theorem alike_of_overlay
    (sites : other.sites = engine.sites)
    (signals : other.signals = engine.signals)
    (overlay : other.pending.overlay = engine.pending.overlay) :
    engine.Alike other := by
  have node (path : Path) : other.node? path = engine.node? path := by
    simp only [Engine.node?, sites, Pending.node?_of_overlay overlay]
  refine ⟨sites, signals, fun query => ?_, node⟩
  simp only [Engine.latest?, sites, node]

/-- A run with a hidden write more gives the same answers and reaches the same views and the same
known data, until the hidden write is answered. If it is then rejected, nothing is told and nothing
is left of it. -/
theorem hidden_write_unnoticed
    (config : Config) (before later : List Call)
    (valid : ∀ call ∈ before, call.Valid)
    (path : Path) (node : Node) (id : WriteId)
    (accepted : ∀ answer ∈ (create config).answers (before ++ later),
      answer.succeeded = true)
    (withHidden : ∀ answer ∈ (create config).answers
      (before ++ .userOverwrite path node id false :: later),
      answer.succeeded = true)
    (unanswered : ∀ rejected, .acknowledge id rejected ∉ later) :
    let plain := (create config).after (before ++ later)
    let withWrite := (create config).after
      (before ++ .userOverwrite path node id false :: later)
    let rejected := withWrite.acknowledge id true
    ((create config).answers
        (before ++ .userOverwrite path node id false :: later) =
      (create config).answers before ++ .events (.ok []) ::
        ((create config).after before).answers later) ∧
    plain.Alike withWrite ∧
    rejected.result = .ok [] ∧ plain.Alike rejected.engine ∧
      rejected.engine.pending.writes = plain.pending.writes := by
  have empty : (create config).pending.Ranked :=
    ⟨List.Pairwise.nil, fun _ member => absurd member List.not_mem_nil⟩
  have ranked := ranked_after (Sound.create config) empty valid
  rw [answers_append, List.forall_mem_append] at accepted withHidden
  obtain ⟨taken, laterTaken⟩ := List.forall_mem_cons.mp withHidden.2
  obtain ⟨silent, hides⟩ := hides_userOverwrite ranked taken
  obtain ⟨same, laterHides⟩ :=
    hides.after rfl accepted.2 laterTaken unanswered
  obtain ⟨answered, sites, signals, writes, overlay⟩ := laterHides.reject rfl
  dsimp only
  rw [answers_append, after_append, after_append]
  refine ⟨?_, ?_, answered, ?_, writes⟩
  · rw [answers, silent, same]
  · exact alike_of_overlay laterHides.sites laterHides.signals
      laterHides.pending.overlay
  · exact alike_of_overlay sites signals overlay

/-- A listener of data with a visible write over it. -/
def overlaidListen : List Call :=
  [.register { path := [⟨"v"⟩] } (.all 1),
    .serverOverwrite [⟨"v"⟩] (.ofScalar (.bool true)),
    .userOverwrite [⟨"v"⟩, ⟨"a"⟩] (.ofScalar (.bool false)) 1 true]

/-- A visible write above the first one, whose removal lays the overlay anew, and a listener that
comes late. -/
def relaidOverlay : List Call :=
  [.userOverwrite [⟨"v"⟩] .empty 5 true, .acknowledge 5 true,
    .register { path := [⟨"v"⟩, ⟨"a"⟩] } (.all 2), .acknowledge 1 false]

theorem hidden_write_unnoticed_relaid :
    let hidden : Call :=
      .userOverwrite [⟨"v"⟩, ⟨"a"⟩] (.ofScalar (.bool true)) 3 false
    let withWrite := (create { session := "" }).after
      (overlaidListen ++ hidden :: relaidOverlay)
    (∀ answer ∈ (create { session := "" }).answers
        (overlaidListen ++ hidden :: relaidOverlay),
      answer.succeeded = true) ∧
    withWrite.pending.writes.map (·.id) = [3] ∧
    ((create { session := "" }).after
      (overlaidListen ++ relaidOverlay)).Alike withWrite ∧
    (withWrite.acknowledge 3 true).result = .ok [] := by
  have valid : ∀ call ∈ overlaidListen, call.Valid := by
    simp [overlaidListen, Call.Valid, Node.Canonical.ofScalar]
  have accepted : ∀ answer ∈ (create { session := "" }).answers
      (overlaidListen ++ relaidOverlay), answer.succeeded = true := by
    decide +kernel
  have withHidden : ∀ answer ∈ (create { session := "" }).answers
      (overlaidListen ++ .userOverwrite [⟨"v"⟩, ⟨"a"⟩]
        (.ofScalar (.bool true)) 3 false :: relaidOverlay),
      answer.succeeded = true := by
    decide +kernel
  have unanswered : ∀ rejected,
      Call.acknowledge 3 rejected ∉ relaidOverlay := by
    simp [relaidOverlay]
  obtain ⟨_, alike, rejected, _⟩ :=
    hidden_write_unnoticed { session := "" } overlaidListen relaidOverlay
      valid [⟨"v"⟩, ⟨"a"⟩] (.ofScalar (.bool true)) 3 accepted withHidden
      unanswered
  exact ⟨withHidden, by decide +kernel, alike, rejected⟩

end Engine

end Replica
