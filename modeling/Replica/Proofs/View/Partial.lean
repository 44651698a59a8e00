import Replica.Proofs.View.Reflection

/-!
# Views that leave children out

A view that leaves children out has a copy of those children only that its query keeps. What it
shows under a key was computed from this copy, as it was when the child was touched or slid into
the window. A child that the copy does not hold is computed from the pending writes alone.
-/

namespace Replica

namespace Caches

variable {filter : Filter}

/-! ## The data of the server -/

private theorem child_overwriteServer_of_present
    {caches : Caches} (canonical : caches.server.node.Canonical)
    (noted : caches.server.filtered = filter.drops)
    {node : Node} (nodeCanonical : node.Canonical)
    {first key : Key} (rest : Path) (unreserved : key.isPriority = false)
    (different : key ≠ first)
    (present : ((overwriteServer filter caches (first :: rest)
      node).server.node.child key).isEmpty = false) :
    (overwriteServer filter caches (first :: rest) node).server.node.child
        key = caches.server.node.child key := by
  rw [overwriteServer_cons noted] at present ⊢
  split at present
  · rename_i ignored
    rw [if_pos ignored]
  · rename_i heeded
    rw [if_neg heeded]
    dsimp only at present ⊢
    split at present
    · rename_i reserved
      rw [if_pos reserved]
      cases filter with
      | everything _ =>
          exact Node.child_setPriority_of_not_priority _ _ unreserved
      | within _ => rfl
      | limited _ => rfl
    · rename_i firstUnreserved
      rw [if_neg firstUnreserved]
      have childCanonical :=
        (canonical.child first).setDescendant nodeCanonical rest
      rcases Filter.child_setChild_of_present canonical childCanonical
          (by simpa using firstUnreserved) filter unreserved present with
        ⟨here, _⟩ | ⟨_, kept⟩
      · exact absurd here different
      · exact kept

/-- The copy gains no child that is not written to. -/
theorem child_learn_of_absent
    {caches : Caches} (canonical : caches.server.node.Canonical)
    (noted : caches.server.filtered = filter.drops)
    {writes : List (Path × Node)}
    (writesCanonical : ∀ write ∈ writes, write.2.Canonical)
    {keys : List Key} (below : ∀ write ∈ writes, ∃ key ∈ keys, ∃ rest,
      write.1 = key :: rest)
    {key : Key} (unreserved : key.isPriority = false)
    (untouched : key ∉ keys)
    (absent : (caches.server.node.child key).isEmpty = true) :
    ((learn filter caches writes).server.node.child key).isEmpty =
      true := by
  induction writes generalizing caches with
  | nil => exact absent
  | cons write rest inductionHypothesis =>
      obtain ⟨first, others⟩ := List.forall_mem_cons.mp below
      obtain ⟨firstCanonical, othersCanonical⟩ :=
        List.forall_mem_cons.mp writesCanonical
      obtain ⟨head, headMember, path, split⟩ := first
      have different : key ≠ head := by
        rintro rfl
        exact untouched headMember
      rw [learn_cons]
      refine inductionHypothesis
        (canonical_overwriteServer canonical firstCanonical filter write.1)
        (filtered_overwriteServer noted write.1 write.2) othersCanonical
        others ?_
      rw [split]
      by_contra gained
      have present : ((overwriteServer filter caches (head :: path)
          write.2).server.node.child key).isEmpty = false := by
        simpa using gained
      rw [child_overwriteServer_of_present canonical noted firstCanonical
        path unreserved different present, absent] at present
      cases present

/-! ## The visible data -/

section

variable {vantage : Vantage} (sound : vantage.pending.Sound)
  {server : Cache} (serverCanonical : server.node.Canonical)
  {key other : Key} (unreserved : key.isPriority = false)
  (otherUnreserved : other.isPriority = false)

private theorem known_eq_laidOver
    (sound : vantage.pending.Sound) (node : Node) :
    vantage.known (some node) =
      vantage.pending.laidOver vantage.path node := by
  unfold Vantage.known
  cases root : vantage.overlay.root? with
  | some top =>
      have valid := sound.overlay_valid.restrict vantage.path
      exact (Overlay.apply_of_root? valid root node).symm
  | none => rfl

include sound serverCanonical unreserved otherUnreserved

/-- A child that is shown after another one, or itself, was computed anew is the writes over the
copy, or it was shown before. -/
theorem child_childEdit_of_present
    {node : Node} (canonical : node.Canonical)
    (present : ((childEdit filter server vantage
      (vantage.pending.laidOver vantage.path server.node) node
        key).node.child other).isEmpty = false) :
    (childEdit filter server vantage
        (vantage.pending.laidOver vantage.path server.node) node
          key).node.child other ≈
        vantage.pending.laidOver (vantage.path ++ [other])
          (server.node.child other) ∨
      other ≠ key ∧
        (childEdit filter server vantage
          (vantage.pending.laidOver vantage.path server.node) node
            key).node.child other = node.child other := by
  have knownCanonical :=
    Pending.canonical_laidOver sound vantage.path serverCanonical
  have slides :=
    Pending.child_laidOver sound vantage.path otherUnreserved
      serverCanonical
  rw [childEdit_eq filter server vantage _ node unreserved] at present ⊢
  rcases Filter.child_setChild_cases canonical
      (canonical_child?_getD sound serverCanonical key) knownCanonical
      unreserved filter otherUnreserved present with
    ⟨rfl, new⟩ | kept | ⟨_, slid⟩
  · refine Or.inl (Setoid.trans new ?_)
    -- What is shown was determined, so it is the writes over the copy.
    rw [Node.isEmpty_congr new] at present
    rw [Vantage.child?_eq sound] at present ⊢
    split at present
    · rename_i determined
      rw [if_pos determined]
      exact Setoid.refl _
    · cases present
  · exact Or.inr kept
  · exact Or.inl (Setoid.trans slid slides)

end

section

variable {vantage : Vantage} (sound : vantage.pending.Sound)
  {server : Cache} (serverCanonical : server.node.Canonical)
  {key : Key} (unreserved : key.isPriority = false)

include sound serverCanonical unreserved

private theorem child_childrenAfter_of_present
    {node : Node} (canonical : node.Canonical) {keys : List Key}
    (keysUnreserved : ∀ key ∈ keys, key.isPriority = false)
    (present : ((childrenAfter filter server vantage
      (vantage.pending.laidOver vantage.path server.node) node
        keys).child key).isEmpty = false) :
    (childrenAfter filter server vantage
        (vantage.pending.laidOver vantage.path server.node) node
          keys).child key ≈
        vantage.pending.laidOver (vantage.path ++ [key])
          (server.node.child key) ∨
      key ∉ keys ∧
        (childrenAfter filter server vantage
          (vantage.pending.laidOver vantage.path server.node) node
            keys).child key = node.child key := by
  induction keys generalizing node with
  | nil => exact Or.inr ⟨List.not_mem_nil, rfl⟩
  | cons first rest inductionHypothesis =>
      obtain ⟨firstUnreserved, others⟩ :=
        List.forall_mem_cons.mp keysUnreserved
      have knownCanonical :=
        Pending.canonical_laidOver sound vantage.path serverCanonical
      have edited :=
        (sound_childEdit sound serverCanonical knownCanonical canonical
          firstUnreserved filter).canonical
      rcases inductionHypothesis edited others present with
        computed | ⟨notLater, kept⟩
      · exact Or.inl computed
      · change (childrenAfter filter server vantage _
          (childEdit filter server vantage _ node first).node
            rest).child key ≈ _ ∨ _ ∧ (childrenAfter filter server vantage _
              (childEdit filter server vantage _ node first).node
                rest).child key = _
        change ((childrenAfter filter server vantage _
          (childEdit filter server vantage _ node first).node
            rest).child key).isEmpty = false at present
        rw [kept] at present ⊢
        rcases child_childEdit_of_present sound serverCanonical
            firstUnreserved unreserved canonical present with
          computed | ⟨different, still⟩
        · exact Or.inl computed
        · exact Or.inr ⟨List.not_mem_cons_of_ne_of_not_mem different
            notLater, still⟩

/-- A leaf that is shown in place of the children has none. -/
theorem child_leafEdit_of_present
    {node : Node}
    (present : ((leafEdit filter server vantage node).node.child
      key).isEmpty = false) :
    (leafEdit filter server vantage node).node.child key =
      node.child key := by
  rcases leafEdit_cases sound serverCanonical filter node with
    unchanged | ⟨noData, whole, wholeCanonical, leaf, replaces⟩
  · rw [unchanged]
    rfl
  · rw [replaces node noData] at present
    change ((filter.select whole).child key).isEmpty = false at present
    rw [Filter.child_select_of_present wholeCanonical filter unreserved
      present, Node.child_leaf leaf unreserved] at present
    cases present

/-- A child that is shown after an operation is the writes over the copy, or it was shown before
and is not touched. -/
theorem child_visibleAfter_of_present
    (complete : server.complete = true)
    {node : Node} (canonical : node.Canonical) {scope : Scope}
    (keysUnreserved : ∀ keys, scope = .children keys →
      ∀ key ∈ keys, key.isPriority = false)
    (present : ((visibleAfter filter server vantage none node
      scope).child key).isEmpty = false) :
    (visibleAfter filter server vantage none node scope).child key ≈
        vantage.pending.laidOver (vantage.path ++ [key])
          (server.node.child key) ∨
      ∃ keys, scope = .children keys ∧ key ∉ keys ∧
        (visibleAfter filter server vantage none node scope).child key =
          node.child key := by
  cases scope with
  | all =>
      have known :
          (server.complete || (vantage.shadow? []).isSome) = true := by
        rw [complete, Bool.true_or]
      have whole := canonical_visibleNode sound serverCanonical
      change ((filter.select (visibleNode server vantage)).child
        key).isEmpty = false at present
      change (filter.select (visibleNode server vantage)).child key ≈ _ ∨ _
      rw [Filter.child_select_of_present whole filter unreserved present,
        visibleNode_of_known sound known]
      exact Or.inl
        (Pending.child_laidOver sound _ unreserved serverCanonical)
  | children keys =>
      have knows :
          vantage.known ((none : Option Node).or server.complete?) =
            vantage.pending.laidOver vantage.path server.node := by
        rw [Option.none_or, Cache.complete?_of_complete complete,
          known_eq_laidOver sound]
      have allUnreserved := keysUnreserved keys rfl
      unfold visibleAfter at present ⊢
      rw [knows] at present ⊢
      have shown :=
        child_leafEdit_of_present sound serverCanonical unreserved present
      rw [shown] at present ⊢
      rcases child_childrenAfter_of_present sound serverCanonical
          unreserved canonical allUnreserved present with
        computed | ⟨untouched, kept⟩
      · exact Or.inl computed
      · exact Or.inr ⟨keys, rfl, untouched, kept⟩

end

end Caches

end Replica
