import Replica.Proofs.View.Unfiltered
import Replica.Proofs.Overlay.LeafTurn

/-!
# Leaves that a view shows

When an operation touches only children, a view changes its visible data child by child, and what
belongs to the location itself is not computed anew. A leaf is nevertheless shown wherever the
pending writes give one over the data of the server. The other way around fails: a leaf may stay
where the data has become a branch, but then no write covers the location, and the server has no
leaf there either.
-/

namespace Replica

namespace Pending

/-- The leaf that a location shows stays the same as long as it is one. It gives way to no data
only where the data of the server does, and does not come back over a branch. -/
structure LeafTurns (pending next : Pending) (path : Path)
    (node nextNode : Node) : Prop where
  same : (pending.laidOver path node).isLeaf = true →
    (next.laidOver path nextNode).isLeaf = true →
    next.laidOver path nextNode ≈ pending.laidOver path node
  gone : (pending.laidOver path node).isLeaf = true →
    (next.laidOver path nextNode).isLeaf = false →
    (∀ key : Key, key.isPriority = false →
      ((next.laidOver path nextNode).child key).isEmpty = true) →
    (next.overlay.node? path).isSome = false ∧ nextNode.isLeaf = false
  branch : (pending.overlay.node? path).isSome = false →
    node.isLeaf = false →
    (next.overlay.node? path).isSome = false ∧
      nextNode.isLeaf = false ∧ (next.laidOver path nextNode).isLeaf = false

/-- What an overlay looks like from a location tells whether it covers the location. -/
theorem root?_eq_none_iff_of_restrict
    {pending : Pending} (sound : pending.Sound) {path : Path}
    {shown : Overlay} (isShown : pending.overlay.restrict path ≈ shown) :
    shown.root? = none ↔ (pending.overlay.node? path).isSome = false := by
  have roots := Overlay.root?_congr isShown
  rw [Overlay.root?_restrict sound.overlay_valid] at roots
  generalize pending.overlay.node? path = covered at *
  generalize shown.root? = root at *
  cases roots with
  | none => exact iff_of_true rfl rfl
  | some _ => exact iff_of_false (Option.some_ne_none _) Bool.noConfusion

private theorem laidOver_of_restrict
    {pending : Pending} (sound : pending.Sound) {path : Path}
    {shown : Overlay} (isShown : pending.overlay.restrict path ≈ shown)
    (valid : shown.Valid) {node : Node} (canonical : node.Canonical) :
    pending.laidOver path node ≈ shown.apply node :=
  Overlay.apply_congr isShown (sound.overlay_valid.restrict path) valid
    (Setoid.refl node) canonical canonical

/-- Writes below the children of a location turn its leaf in this way, and so does data of the
server there. -/
theorem leafTurns_of_turns
    {pending next : Pending} (sound : pending.Sound)
    (nextSound : next.Sound)
    {writes : List (Path × Node)}
    (turns : Overlay.Turns pending.overlay next.overlay writes)
    (canonical : ∀ write ∈ writes, write.2.Canonical)
    {path : Path} (plain : pending.overlay.Plain path)
    (nextPlain : next.overlay.Plain path)
    {seen told : List (Path × Node)}
    (isSeen : seen = writes.filterMap (Overlay.seenFrom path))
    (inChild : ∀ write ∈ seen, write.1.InChild)
    (apart : ∀ upper ∈ seen, ∀ lower ∈ seen,
      Path.contains upper.1 lower.1 = true → upper = lower)
    (toldCanonical : ∀ write ∈ told, write.2.Canonical)
    (toldInChild : ∀ write ∈ told, write.1.InChild)
    {node : Node} (nodeCanonical : node.Canonical) :
    LeafTurns pending next path node (node.lay told) := by
  subst isSeen
  obtain ⟨shown, nextShown, shownTurns, valid, nextValid, isShown,
      isNextShown⟩ :=
    turns.restrict sound.overlay_valid canonical plain nextPlain
  have seenCanonical := @Overlay.canonical_of_mem_filterMap path _ canonical
  have nextCanonical := nodeCanonical.lay toldCanonical
  have here := laidOver_of_restrict sound isShown valid nodeCanonical
  have there :=
    laidOver_of_restrict nextSound isNextShown nextValid nextCanonical
  have uncovered := root?_eq_none_iff_of_restrict sound isShown
  have nextUncovered := root?_eq_none_iff_of_restrict nextSound isNextShown
  constructor
  · intro leaf nextLeaf
    rw [Node.isLeaf_congr here] at leaf
    rw [Node.isLeaf_congr there] at nextLeaf
    have same :=
      shownTurns.apply_of_leaf valid nextValid seenCanonical inChild apart
        leaf toldInChild nextLeaf
    rw [same] at there
    exact Setoid.trans there (Setoid.symm here)
  · intro leaf nextBranch childless
    rw [Node.isLeaf_congr here] at leaf
    rw [Node.isLeaf_congr there] at nextBranch
    have gone :=
      shownTurns.branch_of_leaf valid nextValid seenCanonical inChild apart
        leaf nextCanonical nextBranch fun key keyUnreserved => by
          rw [← Node.isEmpty_congr (Node.child_congr there key)]
          exact childless key keyUnreserved
    exact ⟨nextUncovered.mp gone.1, gone.2⟩
  · intro isUncovered branch
    have still :=
      shownTurns.branch_of_branch valid nextValid seenCanonical inChild
        toldInChild (uncovered.mpr isUncovered) branch
    refine ⟨nextUncovered.mp still.1, still.2.1, ?_⟩
    rw [Node.isLeaf_congr there]
    exact still.2.2

/-! ## What is shown -/

/-- A leaf that the pending writes give over data of the server is shown. A leaf that is shown in
place of a branch is left over: no write covers the location, and the server has no leaf there. -/
structure ShowsLeaves (pending : Pending) (path : Path)
    (visible server : Node) : Prop where
  shown : (pending.laidOver path server).isLeaf = true →
    visible ≈ pending.laidOver path server
  leftover : visible.isLeaf = true →
    (pending.laidOver path server).isLeaf = false →
    (pending.overlay.node? path).isSome = false ∧ server.isLeaf = false

theorem showsLeaves_of_equiv
    {pending : Pending} {path : Path} {visible server : Node}
    (equal : visible ≈ pending.laidOver path server) :
    pending.ShowsLeaves path visible server := by
  refine ⟨fun _ => equal, fun leaf branch => ?_⟩
  rw [Node.isLeaf_congr equal, branch] at leaf
  cases leaf

section

variable {pending next : Pending} {path : Path}
  {visible computed server nextServer : Node}
  (shows : pending.ShowsLeaves path visible server)
  (turns : LeafTurns pending next path server nextServer)
  (unchanged : computed.isLeaf = true → computed = visible)

include shows turns unchanged

/-- Data that has been computed anew, and is still the leaf that was shown, is the leaf that is to
be shown. -/
private theorem computed_equiv_of_isLeaf
    (isLeaf : computed.isLeaf = true)
    (leaf : (next.laidOver path nextServer).isLeaf = true) :
    computed ≈ next.laidOver path nextServer := by
  have stays := unchanged isLeaf
  rw [stays] at isLeaf ⊢
  cases wasLeaf : (pending.laidOver path server).isLeaf with
  | true =>
      exact Setoid.trans (shows.shown wasLeaf)
        (Setoid.symm (turns.same wasLeaf leaf))
  | false =>
      obtain ⟨uncovered, branch⟩ := shows.leftover isLeaf wasLeaf
      have stillBranch := (turns.branch uncovered branch).2.2
      rw [leaf] at stillBranch
      cases stillBranch

private theorem leftover_of_isLeaf
    (isLeaf : computed.isLeaf = true)
    (branch : (next.laidOver path nextServer).isLeaf = false)
    (sameChildren : ∀ key : Key, key.isPriority = false →
      computed.child key ≈ (next.laidOver path nextServer).child key) :
    (next.overlay.node? path).isSome = false ∧
      nextServer.isLeaf = false := by
  cases wasLeaf : (pending.laidOver path server).isLeaf with
  | true =>
      refine turns.gone wasLeaf branch fun key unreserved => ?_
      rw [← Node.isEmpty_congr (sameChildren key unreserved),
        Node.child_leaf isLeaf unreserved]
      rfl
  | false =>
      rw [unchanged isLeaf] at isLeaf
      obtain ⟨uncovered, wasBranch⟩ := shows.leftover isLeaf wasLeaf
      have still := turns.branch uncovered wasBranch
      exact ⟨still.1, still.2.1⟩

/-- The children are computed anew, and a leaf is put in place of nothing: the leaves stay
right. -/
theorem ShowsLeaves.turn
    {result : Node} (canonical : result.Canonical)
    (isResult : result =
      if computed.isEmpty && (next.laidOver path nextServer).isLeaf then
        next.laidOver path nextServer
      else computed)
    (sameChildren : ∀ key : Key, key.isPriority = false →
      result.child key ≈ (next.laidOver path nextServer).child key) :
    next.ShowsLeaves path result nextServer := by
  cases leaf : (next.laidOver path nextServer).isLeaf with
  | true =>
      refine ⟨fun _ => ?_, fun _ branch => ?_⟩
      · cases noData : computed.isEmpty with
        | true =>
            rw [isResult, noData, leaf]
            exact Setoid.refl _
        | false =>
            rw [noData, Bool.false_and, if_neg Bool.false_ne_true]
              at isResult
            subst isResult
            refine computed_equiv_of_isLeaf shows turns unchanged ?_ leaf
            by_contra branch
            have nothing : result.isEmpty = true := by
              refine (Node.isEmpty_iff canonical).mpr
                ⟨by simpa using branch, fun key unreserved => ?_⟩
              rw [Node.isEmpty_congr (sameChildren key unreserved),
                Node.child_leaf leaf unreserved]
              rfl
            rw [noData] at nothing
            cases nothing
      · rw [leaf] at branch
        cases branch
  | false =>
      rw [leaf, Bool.and_false, if_neg Bool.false_ne_true] at isResult
      subst isResult
      refine ⟨fun isLeaf => ?_, fun isLeaf _ => ?_⟩
      · rw [leaf] at isLeaf
        cases isLeaf
      · exact leftover_of_isLeaf shows turns unchanged isLeaf leaf
          sameChildren

end

end Pending

namespace Caches

section

variable {index : Index}

/-! ## The data of the server -/

/-- Complete data of the server takes a node at the location or below a child as any node
would. -/
theorem node_overwriteServer
    {caches : Caches} (complete : caches.server.complete = true)
    (unfiltered : caches.server.filtered = false)
    {path : Path} (addressed : path.AtPriority = false) (node : Node) :
    (overwriteServer (.everything index) caches path node).server.node =
      caches.server.node.setDescendant path node := by
  cases path with
  | nil => rfl
  | cons key rest =>
      have unreserved : key.isPriority = false := addressed
      have known : caches.server.knowsPath (key :: rest) = true := by
        unfold Cache.knowsPath Cache.knowsChild Cache.knowsAll
        rw [complete, unfiltered]
        rfl
      unfold overwriteServer
      dsimp only
      rw [known, Bool.not_true, Bool.false_and, unreserved]
      change (Edit.ofChild caches.server.node key _).node = _
      rw [Edit.node_ofChild_eq_setChild _ _ unreserved,
        Node.setDescendant_cons_of_not_priority unreserved]

private theorem node_learn
    {caches : Caches} (complete : caches.server.complete = true)
    (unfiltered : caches.server.filtered = false)
    {writes : List (Path × Node)}
    (addressed : ∀ write ∈ writes, write.1.AtPriority = false) :
    (learn (.everything index) caches writes).server.node =
      caches.server.node.lay writes := by
  induction writes generalizing caches with
  | nil => rfl
  | cons write rest inductionHypothesis =>
      obtain ⟨first, others⟩ := List.forall_mem_cons.mp addressed
      have stillComplete :
          (overwriteServer (.everything index) caches write.1
            write.2).server.complete = true := by
        rw [complete_overwriteServer, complete]
        rfl
      rw [learn_cons, Node.lay_cons, inductionHypothesis stillComplete
        (filtered_overwriteServer unfiltered write.1 write.2) others,
        node_overwriteServer complete unfiltered first]

/-- Complete data of the server takes an operation that addresses no priority of its own as any
node would. -/
theorem node_receive
    {caches : Caches} (complete : caches.server.complete = true)
    (unfiltered : caches.server.filtered = false)
    {operation : Operation}
    (addressed : ∀ write ∈ operation.serverWrites,
      write.1.AtPriority = false) :
    (receive (.everything index) caches operation).server.node =
      caches.server.node.lay operation.serverWrites := by
  rw [receive_eq]
  exact node_learn complete unfiltered addressed

/-! ## The visible data -/

variable {server : Cache} {vantage : Vantage}

/-- If a child that is computed anew gives a leaf, it has changed nothing. -/
theorem childEdit_eq_of_isLeaf
    {known node : Node} {key : Key} (unreserved : key.isPriority = false)
    (leaf : (childEdit (.everything index) server vantage known node
      key).node.isLeaf = true) :
    (childEdit (.everything index) server vantage known node key).node =
      node := by
  rw [childEdit_eq _ _ _ _ _ unreserved] at leaf ⊢
  change (Edit.ofChild node key _).node.isLeaf = true at leaf
  change (Edit.ofChild node key _).node = node
  rw [Edit.node_ofChild_eq_setChild _ _ unreserved] at leaf ⊢
  exact Node.setChild_eq_of_isLeaf unreserved leaf

theorem childrenAfter_eq_of_isLeaf
    {known node : Node} {keys : List Key}
    (keysUnreserved : ∀ key ∈ keys, key.isPriority = false)
    (leaf : (childrenAfter (.everything index) server vantage known node
      keys).isLeaf = true) :
    childrenAfter (.everything index) server vantage known node keys =
      node := by
  induction keys generalizing node with
  | nil => rfl
  | cons key rest inductionHypothesis =>
      obtain ⟨unreserved, others⟩ :=
        List.forall_mem_cons.mp keysUnreserved
      have later := inductionHypothesis others leaf
      change childrenAfter (.everything index) server vantage known
        (childEdit (.everything index) server vantage known node key).node
        rest = _ at later ⊢
      change (childrenAfter (.everything index) server vantage known
        (childEdit (.everything index) server vantage known node key).node
        rest).isLeaf = true at leaf
      rw [later] at leaf ⊢
      exact childEdit_eq_of_isLeaf unreserved leaf

/-- Where the data is complete, a leaf of it is shown in place of nothing. -/
theorem node_leafEdit
    (sound : vantage.pending.Sound) (complete : server.complete = true)
    (node : Node) :
    (leafEdit (.everything index) server vantage node).node =
      if node.isEmpty &&
          (vantage.pending.laidOver vantage.path server.node).isLeaf then
        vantage.pending.laidOver vantage.path server.node
      else node := by
  unfold leafEdit
  rw [Cache.complete?_of_complete complete]
  dsimp only
  rw [Vantage.node?_some sound, Option.getD_some]
  cases node.isEmpty with
  | false => rfl
  | true =>
      rw [Bool.true_and, if_pos rfl]
      split
      · rfl
      · rfl

/-- What is shown after an operation that touches only children. -/
theorem visibleAfter_of_children
    (sound : vantage.pending.Sound) (complete : server.complete = true)
    (ancestor? : Option Node) (node : Node) {keys : List Key}
    (keysUnreserved : ∀ key ∈ keys, key.isPriority = false) :
    ∃ computed : Node,
      (computed.isLeaf = true → computed = node) ∧
        visibleAfter (.everything index) server vantage ancestor? node
            (.children keys) =
          if computed.isEmpty &&
              (vantage.pending.laidOver vantage.path
                server.node).isLeaf then
            vantage.pending.laidOver vantage.path server.node
          else computed :=
  ⟨_, childrenAfter_eq_of_isLeaf keysUnreserved,
    node_leafEdit sound complete _⟩

/-- Where the children are shown already, only a leaf may come in place of nothing. -/
theorem visibleAfter_of_shown
    (sound : vantage.pending.Sound) (complete : server.complete = true)
    (ancestor? : Option Node) {node : Node} {keys : List Key}
    (shown : ∀ key ∈ keys, ∃ child,
      vantage.child? key server = some child ∧ node.child key ≈ child) :
    visibleAfter (.everything index) server vantage ancestor? node
        (.children keys) =
      if node.isEmpty &&
          (vantage.pending.laidOver vantage.path server.node).isLeaf then
        vantage.pending.laidOver vantage.path server.node
      else node := by
  change (leafEdit (.everything index) server vantage (childrenAfter
    (.everything index) server vantage _ node keys)).node = _
  rw [childrenAfter_of_shown _ shown]
  exact node_leafEdit sound complete node

end

end Caches

end Replica
