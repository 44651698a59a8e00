import Replica.Proofs.View.Basic

/-!
# Views that keep every child

A query without bounds and limit keeps every child. When such a view takes an operation that
touches only some children, those are computed anew, and all others stay as they were on both
sides: in the data of the server and in what listeners see.
-/

namespace Replica

namespace Caches

/-! ## The state of completeness -/

/-- A filter that may leave children out is noted in the server's cache. -/
theorem filtered_overwriteServer
    {filter : Filter} {caches : Caches}
    (noted : caches.server.filtered = filter.drops)
    (path : Path) (node : Node) :
    (overwriteServer filter caches path node).server.filtered =
      filter.drops := by
  have overwritten := overwritten_overwriteServer filter caches path node
  generalize overwriteServer filter caches path node = next
    at overwritten ⊢
  cases overwritten with
  | whole => rfl
  | ignored => exact noted
  | priority _ => rfl
  | child _ => rfl

private theorem filtered_learn
    {filter : Filter} {caches : Caches}
    (noted : caches.server.filtered = filter.drops)
    (writes : List (Path × Node)) :
    (learn filter caches writes).server.filtered = filter.drops := by
  induction writes generalizing caches with
  | nil => exact noted
  | cons write rest inductionHypothesis =>
      exact inductionHypothesis
        (filtered_overwriteServer noted write.1 write.2)

theorem filtered_receive
    {filter : Filter} {caches : Caches}
    (noted : caches.server.filtered = filter.drops)
    (operation : Operation) :
    (receive filter caches operation).server.filtered = filter.drops := by
  rw [receive_eq]
  exact filtered_learn noted operation.serverWrites

/-- Data below the location does not complete the cache. -/
@[simp]
theorem complete_overwriteServer
    (filter : Filter) (caches : Caches) (path : Path) (node : Node) :
    (overwriteServer filter caches path node).server.complete =
      (caches.server.complete || path.isEmpty) := by
  have overwritten := overwritten_overwriteServer filter caches path node
  generalize overwriteServer filter caches path node = next
    at overwritten ⊢
  cases overwritten with
  | whole => rfl
  | ignored => exact (Bool.or_false _).symm
  | priority _ => rfl
  | child _ => rfl

@[simp]
theorem complete_learn
    (filter : Filter) (caches : Caches) (writes : List (Path × Node)) :
    (learn filter caches writes).server.complete =
      (caches.server.complete || writes.any (·.1.isEmpty)) := by
  induction writes generalizing caches with
  | nil => exact (Bool.or_false _).symm
  | cons write rest inductionHypothesis =>
      rw [learn_cons, inductionHypothesis, complete_overwriteServer,
        List.any_cons, Bool.or_assoc]

/-- What is complete stays complete. -/
theorem complete_receive_of_complete
    {caches : Caches} (complete : caches.server.complete = true)
    (filter : Filter) (operation : Operation) :
    (receive filter caches operation).server.complete = true := by
  rw [receive_eq]
  dsimp only
  rw [complete_learn, complete, Bool.true_or, Bool.true_or]

/-- An operation that touches only children does not complete the cache. -/
theorem complete_receive_of_children
    {filter : Filter} {caches : Caches} {operation : Operation}
    {keys : List Key} (scope : operation.scope = .children keys) :
    (receive filter caches operation).server.complete =
      caches.server.complete := by
  have nothingWhole :
      operation.serverWrites.any (·.1.isEmpty) = false := by
    refine List.any_eq_false.mpr fun write member => ?_
    obtain ⟨key, _, rest, split⟩ :=
      (Operation.covers_serverWrites scope).2 write member
    rw [split]
    exact Bool.false_ne_true
  have notHere :
      (operation.completes && operation.path.isEmpty) = false := by
    cases operation with
    | listenComplete path =>
        obtain ⟨_, key, _, rest, split⟩ := Scope.covers_of_ofPath scope
        change (true && path.isEmpty) = false
        rw [split]
        rfl
    | overwrite _ _ _ => rfl
    | merge _ _ _ => rfl
    | acknowledge _ _ _ => rfl
  rw [receive_eq]
  dsimp only
  rw [complete_learn, nothingWhole, notHere, Bool.or_false, Bool.or_false]

/-! ## Untouched children -/

section

variable {index : Index}

private theorem child_overwriteServer_of_ne
    {caches : Caches} (canonical : caches.server.node.Canonical)
    {first key : Key} (rest : Path) (node : Node)
    (unreserved : key.isPriority = false) (different : key ≠ first) :
    (overwriteServer (.everything index) caches (first :: rest)
      node).server.node.child key = caches.server.node.child key := by
  unfold overwriteServer
  dsimp only
  split
  · rename_i impossible
    cases impossible
  · split
    · rfl
    · split
      · exact Node.child_setPriority_of_not_priority _ _ unreserved
      · exact Edit.child_ofChild_of_ne canonical _ unreserved different

private theorem child_learn_of_untouched
    {caches : Caches} (canonical : caches.server.node.Canonical)
    {writes : List (Path × Node)}
    (writesCanonical : ∀ write ∈ writes, write.2.Canonical)
    {keys : List Key} (covers : Scope.Covers keys writes)
    {key : Key} (unreserved : key.isPriority = false)
    (untouched : key ∉ keys) :
    (learn (.everything index) caches writes).server.node.child key =
      caches.server.node.child key := by
  obtain ⟨_, below⟩ := covers
  induction writes generalizing caches with
  | nil => rfl
  | cons write rest inductionHypothesis =>
      obtain ⟨first, others⟩ := List.forall_mem_cons.mp below
      obtain ⟨firstCanonical, othersCanonical⟩ :=
        List.forall_mem_cons.mp writesCanonical
      obtain ⟨head, headMember, path, split⟩ := first
      have different : key ≠ head := by
        rintro rfl
        exact untouched headMember
      rw [learn_cons, inductionHypothesis
        (canonical_overwriteServer canonical firstCanonical _ write.1)
        othersCanonical others, split]
      exact child_overwriteServer_of_ne canonical path write.2
        unreserved different

/-- The server's data of the children that an operation does not touch stays as it was. -/
theorem child_receive_of_untouched
    {caches : Caches} (canonical : caches.server.node.Canonical)
    {operation : Operation} (valid : operation.Valid)
    {keys : List Key} (scope : operation.scope = .children keys)
    {key : Key} (unreserved : key.isPriority = false)
    (untouched : key ∉ keys) :
    (receive (.everything index) caches operation).server.node.child key =
      caches.server.node.child key := by
  rw [receive_eq]
  exact child_learn_of_untouched canonical
    valid.canonical_of_mem_serverWrites
    (Operation.covers_serverWrites scope) unreserved untouched

variable {vantage : Vantage} {server : Cache}

/-- The visible children that are not computed anew stay as they were. -/
theorem child_childrenAfter_of_untouched
    (sound : vantage.pending.Sound)
    (serverCanonical : server.node.Canonical)
    {known node : Node} (knownCanonical : known.Canonical)
    (canonical : node.Canonical) {keys : List Key}
    (keysUnreserved : ∀ key ∈ keys, key.isPriority = false)
    {key : Key} (unreserved : key.isPriority = false)
    (untouched : key ∉ keys) :
    (childrenAfter (.everything index) server vantage known node
      keys).child key = node.child key := by
  induction keys generalizing node with
  | nil => rfl
  | cons first rest inductionHypothesis =>
      obtain ⟨firstUnreserved, others⟩ :=
        List.forall_mem_cons.mp keysUnreserved
      have different : key ≠ first := by
        rintro rfl
        exact untouched List.mem_cons_self
      have edited :=
        (sound_childEdit sound serverCanonical knownCanonical canonical
          firstUnreserved (.everything index)).canonical
      have kept :
          (childEdit (.everything index) server vantage known node
            first).node.child key = node.child key := by
        rw [childEdit_eq _ _ _ _ _ firstUnreserved]
        exact Edit.child_ofChild_of_ne canonical _ unreserved different
      exact (inductionHypothesis edited others
        (fun member => untouched (List.mem_cons_of_mem first member))).trans
          kept

/-- Children that are shown already are computed anew without a change. -/
theorem childrenAfter_of_shown
    (known : Node) {node : Node} {keys : List Key}
    (shown : ∀ key ∈ keys, ∃ child,
      vantage.child? key server = some child ∧ node.child key ≈ child) :
    childrenAfter (.everything index) server vantage known node keys =
      node := by
  induction keys with
  | nil => rfl
  | cons key rest inductionHypothesis =>
      obtain ⟨⟨child, determined, same⟩, others⟩ :=
        List.forall_mem_cons.mp shown
      have kept :
          (childEdit (.everything index) server vantage known node
            key).node = node := by
        unfold childEdit
        rw [determined]
        change (Edit.ofChild node key child).node = node
        rw [Edit.node_ofChild, Node.equiv_iff.mp same, Bool.true_or,
          if_pos rfl]
      change childrenAfter (.everything index) server vantage known
        (childEdit (.everything index) server vantage known node key).node
        rest = node
      rw [kept]
      exact inductionHypothesis others

/-- The visible children that are computed anew show the writes over the server's data. -/
theorem child_childrenAfter_of_touched
    (sound : vantage.pending.Sound)
    (serverCanonical : server.node.Canonical)
    {known node : Node} (knownCanonical : known.Canonical)
    (canonical : node.Canonical) {keys : List Key}
    (keysUnreserved : ∀ key ∈ keys, key.isPriority = false)
    (determined : ∀ key ∈ keys, vantage.child? key server =
      some (vantage.pending.laidOver (vantage.path ++ [key])
        (server.node.child key)))
    {key : Key} (touched : key ∈ keys) :
    (childrenAfter (.everything index) server vantage known node
      keys).child key ≈
        vantage.pending.laidOver (vantage.path ++ [key])
          (server.node.child key) := by
  induction keys generalizing node with
  | nil => cases touched
  | cons first rest inductionHypothesis =>
      obtain ⟨firstUnreserved, others⟩ :=
        List.forall_mem_cons.mp keysUnreserved
      obtain ⟨firstDetermined, othersDetermined⟩ :=
        List.forall_mem_cons.mp determined
      have edited :=
        (sound_childEdit sound serverCanonical knownCanonical canonical
          firstUnreserved (.everything index)).canonical
      by_cases later : key ∈ rest
      · exact inductionHypothesis edited others othersDetermined later
      · have here : key = first := by
          rcases List.mem_cons.mp touched with here | inRest
          · exact here
          · exact absurd inRest later
        subst here
        have stays :=
          @child_childrenAfter_of_untouched index _ _ sound
            serverCanonical _ _ knownCanonical edited _ others _
            firstUnreserved later
        change (childrenAfter (.everything index) server vantage known
          (childEdit (.everything index) server vantage known node
            key).node rest).child key ≈ _
        rw [stays]
        rw [childEdit_eq _ _ _ _ _ firstUnreserved, firstDetermined]
        exact Edit.child_ofChild_self canonical
          (Pending.canonical_laidOver sound _ (serverCanonical.child key))
          firstUnreserved

/-- Where everything is known, every child can be computed anew. -/
theorem child?_of_known
    (sound : vantage.pending.Sound) (unfiltered : server.filtered = false)
    (known : (server.complete || (vantage.shadow? []).isSome) = true)
    (key : Key) :
    vantage.child? key server =
      some (vantage.pending.laidOver (vantage.path ++ [key])
        (server.node.child key)) := by
  rw [Vantage.child?_eq sound, if_pos]
  rcases Bool.or_eq_true_iff.mp known with complete | covered
  · unfold Cache.knowsChild Cache.knowsAll
    rw [complete, unfiltered]
    rfl
  · rw [Vantage.shadow?_nil, Overlay.isSome_node?_iff] at covered
    obtain ⟨write, member, above⟩ := covered
    rw [Bool.or_eq_true_iff]
    exact Or.inr (Overlay.isSome_node?_iff.mpr ⟨write, member,
      Path.contains_trans above
        (Path.contains_append vantage.path [key])⟩)

/-- A leaf that is shown in place of the children has none either. -/
theorem child_leafEdit
    (sound : vantage.pending.Sound)
    (serverCanonical : server.node.Canonical)
    {node : Node} (canonical : node.Canonical)
    {key : Key} (unreserved : key.isPriority = false) :
    (leafEdit (.everything index) server vantage node).node.child key =
      node.child key := by
  rcases leafEdit_cases sound serverCanonical (.everything index) node with
    unchanged | ⟨noData, whole, _, leaf, replaces⟩
  · rw [unchanged]
    rfl
  · rw [replaces node noData, canonical.eq_empty noData, Node.child_empty]
    exact Node.child_leaf leaf unreserved

/-- Where everything is known, the visible children after an operation are the writes over the
server's data, or they are untouched. -/
theorem child_visibleAfter
    (sound : vantage.pending.Sound)
    (serverCanonical : server.node.Canonical)
    (unfiltered : server.filtered = false)
    (known : (server.complete || (vantage.shadow? []).isSome) = true)
    {ancestor? : Option Node}
    (ancestorCanonical : ∀ ancestor ∈ ancestor?, ancestor.Canonical)
    {node : Node} (canonical : node.Canonical) {scope : Scope}
    (keysUnreserved : ∀ keys, scope = .children keys →
      ∀ key ∈ keys, key.isPriority = false)
    {key : Key} (unreserved : key.isPriority = false) :
    (visibleAfter (.everything index) server vantage ancestor? node
        scope).child key ≈
          vantage.pending.laidOver (vantage.path ++ [key])
            (server.node.child key) ∨
      ∃ keys, scope = .children keys ∧ key ∉ keys ∧
        (visibleAfter (.everything index) server vantage ancestor? node
          scope).child key = node.child key := by
  cases scope with
  | all =>
      refine Or.inl ?_
      change (visibleNode server vantage).child key ≈ _
      rw [visibleNode_of_known sound known]
      exact Pending.child_laidOver sound _ unreserved serverCanonical
  | children keys =>
      have knownCanonical :=
        canonical_known_or sound serverCanonical ancestorCanonical
      have allUnreserved := keysUnreserved keys rfl
      have computed :=
        canonical_childrenAfter sound serverCanonical knownCanonical
          canonical allUnreserved (.everything index)
      unfold visibleAfter
      rw [child_leafEdit sound serverCanonical computed unreserved]
      by_cases touched : key ∈ keys
      · exact Or.inl (child_childrenAfter_of_touched sound serverCanonical
          knownCanonical canonical allUnreserved
          (fun other _ => child?_of_known sound unfiltered known other)
          touched)
      · exact Or.inr ⟨keys, rfl, touched,
          child_childrenAfter_of_untouched sound serverCanonical
            knownCanonical canonical allUnreserved unreserved touched⟩

end

end Caches

end Replica
