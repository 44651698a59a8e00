import Replica.Proofs.Filter.Settled
import Replica.Proofs.View.Maintained
import Replica.Proofs.View.Unfiltered

/-!
# Views that have settled

A view keeps only children that its filter lets through, in both caches. When it takes the same
data of the server a second time, the caches stay exactly as they were: the data that was left out
is left out again, and the child concerned has settled. Where a leaf was shown because the
children had gone, the child that is computed anew is still gone.
-/

namespace Replica

/-! ## Children that the filter lets through -/

theorem Filter.maintains_holds (filter : Filter) :
    filter.Maintains filter.Holds where
  select canonical := holds_select canonical filter
  setChild canonical _ knownCanonical unreserved holds :=
    holds_setChild holds knownCanonical canonical unreserved
  setPriority _ holds priority := holds.setPriority priority

namespace Caches

variable {filter : Filter} {caches : Caches}

/-- The filter lets the children of both caches through. -/
structure Admitted (filter : Filter) (caches : Caches) : Prop where
  visible : filter.Holds caches.visible.node
  server : filter.Holds caches.server.node

/-! ## Taking the same data twice -/

section

variable {vantage : Vantage} (sound : vantage.pending.Sound)
  {server : Cache} (serverCanonical : server.node.Canonical)
  {node known : Node} {key : Key}

include sound serverCanonical

/-- Computing a child anew twice, each time with the leaf that may stand in for it, is as good as
once. -/
theorem leafEdit_childEdit_again
    (knownCanonical : known.Canonical) (canonical : node.Canonical)
    (holds : filter.Holds node) (unreserved : key.isPriority = false)
    (other : Node) :
    let shown :=
      (leafEdit filter server vantage
        (childEdit filter server vantage known node key).node).node
    (leafEdit filter server vantage
      (childEdit filter server vantage other shown key).node).node =
        shown := by
  have childCanonical :=
    canonical_child?_getD sound serverCanonical key
  have againUnchanged {snap : Node}
      (settled : filter.Settled snap key
        ((vantage.child? key server).getD .empty)) :
      (childEdit filter server vantage other snap key).node = snap := by
    rw [childEdit_eq filter server vantage other snap unreserved,
      settled.setChild unreserved]
    rfl
  have settled :=
    Filter.settled_setChild canonical childCanonical knownCanonical
      unreserved holds
  have snapCanonical :=
    (sound_childEdit sound serverCanonical knownCanonical canonical
      unreserved filter).canonical
  rw [← childEdit_eq filter server vantage known node unreserved] at settled
  dsimp only
  generalize (childEdit filter server vantage known node key).node = snap at *
  rcases leafEdit_cases sound serverCanonical filter snap with
    unchanged | ⟨noData, whole, wholeCanonical, leaf, replaces⟩
  · rw [unchanged]
    change (leafEdit filter server vantage
      (childEdit filter server vantage other snap key).node).node = snap
    rw [againUnchanged settled, unchanged]
    rfl
  · rw [replaces snap noData]
    change (leafEdit filter server vantage
      (childEdit filter server vantage other (filter.select whole)
        key).node).node = filter.select whole
    obtain rfl := snapCanonical.eq_empty noData
    cases drops : filter.drops with
    | true =>
        have nothing : filter.select whole = .empty :=
          Filter.select_leaf drops leaf
        rw [nothing, againUnchanged settled, replaces .empty rfl]
        exact nothing
    | false =>
        have shows :=
          settled.shows Node.Canonical.empty unreserved (.inl drops)
        have present : whole.isEmpty ≠ true := by
          intro gone
          rw [((Node.isEmpty_iff wholeCanonical).mp gone).1] at leaf
          cases leaf
        rw [Node.child_empty] at shows
        have settledLeaf : filter.Settled whole key
            ((vantage.child? key server).getD .empty) := by
          refine .shown ?_
          rw [Filter.clip_of_keepsAll drops, Node.child_leaf leaf unreserved]
          exact shows
        rw [Filter.select_of_keepsAll drops, againUnchanged settledLeaf]
        rcases leafEdit_cases sound serverCanonical filter whole with
          unchanged | ⟨gone, _⟩
        · rw [unchanged]
          rfl
        · exact absurd gone present

end

/-- The server's data after an operation does not depend on what is visible. -/
theorem server_overwriteServer_congr
    {other : Caches} (same : other.server = caches.server)
    (filter : Filter) (path : Path) (node : Node) :
    (overwriteServer filter other path node).server =
      (overwriteServer filter caches path node).server := by
  obtain ⟨_, server⟩ := caches
  cases same
  unfold overwriteServer
  cases path with
  | nil => rfl
  | cons key rest =>
      dsimp only
      split
      · rfl
      · split
        · rfl
        · split
          · rfl
          · rfl

/-- Data below a child that has settled changes nothing. -/
theorem overwriteServer_of_settled
    (canonical : caches.server.node.Canonical)
    (noted : caches.server.filtered = filter.drops)
    {key : Key} (unreserved : key.isPriority = false)
    {before node : Node} (beforeCanonical : before.Canonical)
    (nodeCanonical : node.Canonical) {rest : Path}
    (settled : filter.Settled caches.server.node key
      (before.setDescendant rest node)) :
    overwriteServer filter caches (key :: rest) node = caches := by
  rw [overwriteServer_cons noted]
  split
  · rfl
  · rename_i heeded
    have sameChild :
        before.setDescendant rest node ≈
          (caches.server.node.child key).setDescendant rest node := by
      cases rest with
      | nil => exact Setoid.refl _
      | cons next further =>
          have shown : filter.drops = false ∨
              caches.server.node.hasChild key = true := by
            have known : caches.server.knowsChild key = true := by
              simpa using heeded
            unfold Cache.knowsChild Cache.knowsAll at known
            rw [noted, Bool.or_eq_true, Bool.and_eq_true,
              Bool.not_eq_true'] at known
            exact known.imp_left And.right
          have afterCanonical :=
            beforeCanonical.setDescendant nodeCanonical (next :: further)
          have again := Node.setDescendant_congr
            (settled.shows canonical unreserved shown)
            (Setoid.refl node) (canonical.child key) afterCanonical
            nodeCanonical nodeCanonical (next :: further)
          rw [Node.setDescendant_setDescendant beforeCanonical
            nodeCanonical] at again
          exact Setoid.symm again
    have unchanged :=
      (settled.congr sameChild).setChild unreserved .empty
    dsimp only
    rw [if_neg (by simp [unreserved]), unchanged, ← noted]
    rfl

/-- The same data of the server changes the server's cache only once. -/
theorem overwriteServer_again
    (canonical : caches.server.node.Canonical)
    (noted : caches.server.filtered = filter.drops)
    (holds : filter.Holds caches.server.node)
    {path : Path} (writable : path.Writable)
    {node : Node} (nodeCanonical : node.Canonical) :
    overwriteServer filter (overwriteServer filter caches path node) path
        node =
      overwriteServer filter caches path node := by
  cases path with
  | nil =>
      unfold overwriteServer
      simp only [List.isEmpty_nil, Bool.or_true]
      rfl
  | cons key rest =>
      by_cases ignored :
          (!caches.server.knowsChild key && !rest.isEmpty) = true
      · have same :
            overwriteServer filter caches (key :: rest) node = caches := by
          rw [overwriteServer_cons noted, if_pos ignored]
        rw [same, same]
      · have notedNext := filtered_overwriteServer noted (key :: rest) node
        have canonicalNext :=
          canonical_overwriteServer canonical nodeCanonical filter
            (key :: rest)
        have taken := overwriteServer_cons noted key rest node
        rw [if_neg ignored] at taken
        cases reserved : key.isPriority with
        | true =>
            obtain rfl := writable.eq_nil_of_reserved reserved
            rw [overwriteServer_cons notedNext, List.isEmpty_nil,
              Bool.not_true, Bool.and_false, if_neg Bool.false_ne_true,
              taken]
            dsimp only
            simp only [if_pos reserved, Node.setDescendant,
              Filter.setPriority_setPriority canonical]
        | false =>
            refine overwriteServer_of_settled canonicalNext notedNext
              reserved (canonical.child key) nodeCanonical ?_
            rw [taken]
            dsimp only
            rw [if_neg (by simp [reserved])]
            exact Filter.settled_setChild canonical
              ((canonical.child key).setDescendant nodeCanonical rest)
              Node.Canonical.empty reserved holds

/-- What is visible is computed anew only once from the same data of the server, whatever else is
known at the second time. -/
theorem visibleAfter_again
    {vantage : Vantage} (sound : vantage.pending.Sound)
    {server : Cache} (serverCanonical : server.node.Canonical)
    {ancestor? : Option Node}
    (ancestorCanonical : ∀ ancestor ∈ ancestor?, ancestor.Canonical)
    {node : Node} (canonical : node.Canonical) (holds : filter.Holds node)
    (path : Path) (later? : Option Node) :
    visibleAfter filter server vantage later?
        (visibleAfter filter server vantage ancestor? node (.ofPath path))
        (.ofPath path) =
      visibleAfter filter server vantage ancestor? node (.ofPath path) := by
  cases path with
  | nil => rfl
  | cons key rest =>
      cases reserved : key.isPriority with
      | true =>
          rw [Scope.ofPath, if_pos reserved]
          rfl
      | false =>
          rw [Scope.ofPath, if_neg (by simp [reserved])]
          exact leafEdit_childEdit_again sound serverCanonical
            (canonical_known_or sound serverCanonical ancestorCanonical)
            canonical holds reserved _

/-- Taking the same data of the server twice is as good as taking it once. -/
theorem after_again
    (canonical : caches.Canonical)
    (noted : caches.server.filtered = filter.drops)
    (admitted : caches.Admitted filter)
    {vantage : Vantage} (sound : vantage.pending.Sound)
    {ancestor? : Option Node}
    (ancestorCanonical : ∀ ancestor ∈ ancestor?, ancestor.Canonical)
    {path : Path} (writable : path.Writable)
    {node : Node} (nodeCanonical : node.Canonical)
    (later? : Option Node) :
    after filter
        (after filter caches (.overwrite .server path node) vantage
          ancestor?) (.overwrite .server path node) vantage later? =
      after filter caches (.overwrite .server path node) vantage
        ancestor? := by
  have learned :=
    overwriteServer_again canonical.server noted admitted.server writable
      nodeCanonical
  have serverCanonical :=
    canonical_overwriteServer canonical.server nodeCanonical filter path
  have shown :=
    visibleAfter_again sound serverCanonical ancestorCanonical
      canonical.visible admitted.visible path later?
  have afterLearned (other : Caches) (known? : Option Node)
      (same : (overwriteServer filter other path node).server =
        (overwriteServer filter caches path node).server) :
      after filter other (.overwrite .server path node) vantage known? =
        { visible :=
            ⟨visibleAfter filter
                (overwriteServer filter caches path node).server vantage
                known? other.visible.node (.ofPath path),
              (overwriteServer filter caches path node).server.complete ||
                (vantage.shadow? []).isSome, filter.drops⟩
          server := (overwriteServer filter caches path node).server } := by
    rw [← same]
    rfl
  have sameServer :
      (overwriteServer filter
          (after filter caches (.overwrite .server path node) vantage
            ancestor?) path node).server =
        (overwriteServer filter caches path node).server := by
    calc (overwriteServer filter
          (after filter caches (.overwrite .server path node) vantage
            ancestor?) path node).server
      _ = (overwriteServer filter (overwriteServer filter caches path node)
            path node).server := by
          refine server_overwriteServer_congr ?_ filter path node
          rfl
      _ = (overwriteServer filter caches path node).server := by
          rw [learned]
  rw [afterLearned _ later? sameServer, afterLearned caches ancestor? rfl]
  dsimp only
  rw [shown]

end Caches

end Replica
