import Replica.Proofs.View.Basic

/-!
# What a filter maintains

The caches of a view change in three ways only: the filter selects from a whole node, takes one
child, or replaces the priority. A property of snapshots that the first establishes and the others
leave in place therefore holds of both caches after every operation, whatever the server sends,
whatever writes are pending and whatever is known above.
-/

namespace Replica

/-- A property of snapshots that the filter gives to every node that it selects from, and does not
take away again. -/
structure Filter.Maintains (filter : Filter) (fits : Node → Prop) :
    Prop where
  select {node : Node} (canonical : node.Canonical) :
    fits (filter.select node)
  setChild {snap child known : Node} {key : Key}
    (canonical : snap.Canonical) (childCanonical : child.Canonical)
    (knownCanonical : known.Canonical)
    (unreserved : key.isPriority = false) (snapFits : fits snap) :
    fits (filter.setChild snap key child known).node
  setPriority {snap : Node} (canonical : snap.Canonical)
    (snapFits : fits snap) (priority : Option Priority) :
    fits (filter.setPriority snap priority)

structure Caches.Fit (fits : Node → Prop) (caches : Caches) : Prop where
  visible : fits caches.visible.node
  server : fits caches.server.node

namespace Filter.Maintains

open Caches

variable {filter : Filter} {fits : Node → Prop}
  (maintains : filter.Maintains fits)

include maintains

/-! ## The data of the server -/

private theorem overwriteServer
    {caches : Caches} (canonical : caches.server.node.Canonical)
    (serverFits : fits caches.server.node)
    {node : Node} (nodeCanonical : node.Canonical) (path : Path) :
    fits (Caches.overwriteServer filter caches path node).server.node := by
  have overwritten := overwritten_overwriteServer filter caches path node
  generalize Caches.overwriteServer filter caches path node = next
    at overwritten ⊢
  cases overwritten with
  | whole =>
      exact maintains.select (canonical.setDescendant nodeCanonical path)
  | ignored => exact serverFits
  | priority priority =>
      exact maintains.setPriority canonical serverFits priority
  | @child key rest _ unreserved =>
      exact maintains.setChild canonical
        ((canonical.child key).setDescendant nodeCanonical rest)
        Node.Canonical.empty unreserved serverFits

private theorem learn
    {caches : Caches} (canonical : caches.server.node.Canonical)
    (serverFits : fits caches.server.node)
    {writes : List (Path × Node)}
    (writesCanonical : ∀ write ∈ writes, write.2.Canonical) :
    fits (Caches.learn filter caches writes).server.node := by
  induction writes generalizing caches with
  | nil => exact serverFits
  | cons write rest inductionHypothesis =>
      obtain ⟨first, others⟩ := List.forall_mem_cons.mp writesCanonical
      exact inductionHypothesis
        (canonical_overwriteServer canonical first filter write.1)
        (maintains.overwriteServer canonical serverFits first write.1) others

private theorem receive
    {caches : Caches} (canonical : caches.server.node.Canonical)
    (serverFits : fits caches.server.node)
    {operation : Operation} (valid : operation.Valid) :
    fits (Caches.receive filter caches operation).server.node := by
  rw [receive_eq]
  exact maintains.learn canonical serverFits
    valid.canonical_of_mem_serverWrites

/-! ## The visible data -/

section

variable {vantage : Vantage} (sound : vantage.pending.Sound)
  {server : Cache} (serverCanonical : server.node.Canonical)
  {node known : Node}

include sound serverCanonical

private theorem childEdit
    (knownCanonical : known.Canonical) (canonical : node.Canonical)
    (nodeFits : fits node)
    {key : Key} (unreserved : key.isPriority = false) :
    fits (Caches.childEdit filter server vantage known node key).node := by
  rw [childEdit_eq filter server vantage known node unreserved]
  exact maintains.setChild canonical
    (canonical_child?_getD sound serverCanonical key) knownCanonical
    unreserved nodeFits

private theorem leafEdit (nodeFits : fits node) :
    fits (Caches.leafEdit filter server vantage node).node := by
  rcases leafEdit_cases sound serverCanonical filter node with
    unchanged | ⟨noData, _, wholeCanonical, _, replaces⟩
  · rw [unchanged]
    exact nodeFits
  · rw [replaces node noData]
    exact maintains.select wholeCanonical

private theorem childrenAfter
    (knownCanonical : known.Canonical) (canonical : node.Canonical)
    (nodeFits : fits node) {keys : List Key}
    (unreserved : ∀ key ∈ keys, key.isPriority = false) :
    fits (Caches.childrenAfter filter server vantage known node keys) := by
  induction keys generalizing node with
  | nil => exact nodeFits
  | cons key rest inductionHypothesis =>
      obtain ⟨first, others⟩ := List.forall_mem_cons.mp unreserved
      exact inductionHypothesis
        (sound_childEdit sound serverCanonical knownCanonical canonical
          first filter).canonical
        (maintains.childEdit sound serverCanonical knownCanonical canonical
          nodeFits first) others

private theorem visibleAfter
    {ancestor? : Option Node}
    (ancestorCanonical : ∀ ancestor ∈ ancestor?, ancestor.Canonical)
    (canonical : node.Canonical) (nodeFits : fits node) {scope : Scope}
    (unreserved : ∀ keys, scope = .children keys →
      ∀ key ∈ keys, key.isPriority = false) :
    fits (Caches.visibleAfter filter server vantage ancestor? node
      scope) := by
  cases scope with
  | all =>
      exact maintains.select (canonical_visibleNode sound serverCanonical)
  | children keys =>
      have knownCanonical :=
        canonical_known_or sound serverCanonical ancestorCanonical
      exact maintains.leafEdit sound serverCanonical
        (maintains.childrenAfter sound serverCanonical knownCanonical
          canonical nodeFits (unreserved keys rfl))

end

/-- One operation leaves the property in place. -/
theorem after
    {caches : Caches} (canonical : caches.Canonical)
    (fit : caches.Fit fits)
    {vantage : Vantage} (sound : vantage.pending.Sound)
    {ancestor? : Option Node}
    (ancestorCanonical : ∀ ancestor ∈ ancestor?, ancestor.Canonical)
    {operation : Operation} (valid : operation.Valid) :
    (caches.after filter operation vantage ancestor?).Fit fits where
  visible :=
    maintains.visibleAfter sound
      (canonical_receive canonical.server valid filter) ancestorCanonical
      canonical.visible fit.visible
      fun _ scope => (Operation.covers_of_scope scope).1
  server := maintains.receive canonical.server fit.server valid

end Filter.Maintains

/-- A new view has the property from the start. -/
theorem View.fit_create
    {query : Query} {fits : Node → Prop}
    (maintains : query.selection.filter.Maintains fits)
    {server : Cache} (canonical : server.node.Canonical)
    {vantage : Vantage} (sound : vantage.pending.Sound) :
    (create query server vantage).caches.Fit fits where
  visible := maintains.select (Caches.canonical_visibleNode sound canonical)
  server := maintains.select canonical

end Replica
