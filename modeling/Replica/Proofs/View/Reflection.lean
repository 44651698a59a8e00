import Replica.Proofs.View.Unfiltered

/-!
# Copies of the data of the server

Every view keeps a copy of the data of the server at its location. When the data of the server
changes, the copy is changed by what is seen of it there, and it remains a copy: of everything if
the query keeps every child, and else of the children that are kept.
-/

namespace Replica

theorem View.drops_of_keepsAll
    {view : View} {answer : Bool}
    (keepsAll : view.query.selection.keepsAll = answer) :
    view.filter.drops = !answer :=
  keepsAll ▸ Selection.drops_filter view.query.selection

namespace Caches

/-- The data of the server in the caches agrees with the true data at their location. -/
structure Reflects (filter : Filter) (truth : Node) (caches : Caches) :
    Prop where
  canonical : caches.server.node.Canonical
  filtered : caches.server.filtered = filter.drops
  bare : filter.drops = true → caches.server.node.priority? = none
  whole : filter.drops = false → caches.server.complete = true →
    caches.server.node ≈ truth
  parts : filter.drops = true → caches.server.complete = true →
    ∀ key : Key, key.isPriority = false →
      (caches.server.node.child key).isEmpty = false →
        caches.server.node.child key ≈ truth.child key

variable {filter : Filter} {truth : Node} {caches : Caches}

theorem Reflects.congr
    (reflects : Reflects filter truth caches) {other : Node}
    (equal : truth ≈ other) : Reflects filter other caches where
  canonical := reflects.canonical
  filtered := reflects.filtered
  bare := reflects.bare
  whole keeps complete := Setoid.trans (reflects.whole keeps complete) equal
  parts drops complete key unreserved present :=
    Setoid.trans (reflects.parts drops complete key unreserved present)
      (Node.child_congr equal key)

/-- What a filter keeps of the true data reflects it. -/
theorem reflects_select
    {node : Node} (canonical : node.Canonical) (filter : Filter)
    {complete : Bool} {visible : Cache}
    (agrees : complete = true → node ≈ truth) :
    Reflects filter truth
      ⟨visible, ⟨filter.select node, complete, filter.drops⟩⟩ where
  canonical := Filter.canonical_select canonical filter
  filtered := rfl
  bare drops := Filter.priority?_select drops node
  whole keeps isComplete := by
    cases filter with
    | everything _ => exact agrees isComplete
    | within _ => cases keeps
    | limited _ => cases keeps
  parts _ isComplete key unreserved present := by
    have kept :=
      Filter.child_select_of_present canonical filter unreserved present
    dsimp only
    rw [kept]
    exact Node.child_congr (agrees isComplete) key

/-! ## One node -/

/-- A known child agrees with the true one. -/
private theorem child_of_known
    (reflects : Reflects filter truth caches)
    (complete : caches.server.complete = true)
    {key : Key} (unreserved : key.isPriority = false)
    (known : caches.server.knowsChild key = true) :
    caches.server.node.child key ≈ truth.child key := by
  cases drops : filter.drops with
  | false => exact Node.child_congr (reflects.whole drops complete) key
  | true =>
      refine reflects.parts drops complete key unreserved ?_
      unfold Cache.knowsChild Cache.knowsAll at known
      rw [reflects.filtered, drops, Bool.not_true, Bool.and_false,
        Bool.false_or, Node.hasChild_eq_not_isEmpty reflects.canonical
          unreserved] at known
      simpa using known

section

variable (reflects : Reflects filter truth caches)
  (truthCanonical : truth.Canonical)

include reflects truthCanonical

/-- The children under a key other than the written one are not concerned. -/
private theorem parts_of_ne
    (drops : filter.drops = true)
    (complete : caches.server.complete = true)
    {first key : Key} (child : Node) (unreserved : key.isPriority = false)
    (different : key ≠ first)
    (present : (caches.server.node.child key).isEmpty = false) :
    caches.server.node.child key ≈ (truth.setChild first child).child key := by
  rw [Node.child_setChild_of_ne truthCanonical child unreserved different]
  exact reflects.parts drops complete key unreserved present

/-- Data below a child that was left out may be ignored. -/
private theorem reflects_ignored
    {first : Key} (unknown : caches.server.knowsChild first = false)
    (child : Node) :
    Reflects filter (truth.setChild first child) caches where
  canonical := reflects.canonical
  filtered := reflects.filtered
  bare := reflects.bare
  whole keeps complete := by
    unfold Cache.knowsChild Cache.knowsAll at unknown
    rw [complete, reflects.filtered, keeps] at unknown
    cases unknown
  parts drops complete key unreserved present := by
    refine parts_of_ne reflects truthCanonical drops complete child
      unreserved ?_ present
    rintro rfl
    have absent := (Bool.or_eq_false_iff.mp unknown).2
    rw [Node.hasChild_eq_not_isEmpty reflects.canonical unreserved,
      present] at absent
    cases absent

private theorem reflects_setPriority
    {first : Key} (reserved : first.isPriority = true) (node : Node) :
    Reflects filter (truth.setChild first node)
      { caches with
        server :=
          ⟨filter.setPriority caches.server.node
              (node.value?.bind Priority.ofScalar?),
            caches.server.complete, filter.drops⟩ } := by
  constructor
  · exact Filter.canonical_setPriority reflects.canonical filter _
  · rfl
  · intro drops
    dsimp only
    rw [Filter.setPriority_of_drops drops]
    exact reflects.bare drops
  · intro keeps complete
    rw [Node.setChild_of_priority reserved]
    cases filter with
    | everything _ =>
        exact Node.setPriority_congr (reflects.whole keeps complete)
          reflects.canonical truthCanonical
          (Priority.orderOptional_self _)
    | within _ => cases keeps
    | limited _ => cases keeps
  · intro drops complete key unreserved present
    dsimp only at present ⊢
    rw [Filter.setPriority_of_drops drops] at present ⊢
    refine parts_of_ne reflects truthCanonical drops complete node
      unreserved ?_ present
    rintro rfl
    rw [unreserved] at reserved
    cases reserved

private theorem reflects_setChild
    {first : Key} (firstUnreserved : first.isPriority = false)
    {child : Node} (childCanonical : child.Canonical)
    {trueChild : Node} (trueChildCanonical : trueChild.Canonical)
    (agrees : caches.server.complete = true → child ≈ trueChild) :
    Reflects filter (truth.setChild first trueChild)
      { caches with
        server :=
          ⟨(filter.setChild caches.server.node first child .empty).node,
            caches.server.complete, filter.drops⟩ } where
  canonical :=
    (Filter.sound_setChild reflects.canonical childCanonical
      Node.Canonical.empty firstUnreserved filter).canonical
  filtered := rfl
  bare drops :=
    Filter.priority?_setChild_of_none reflects.canonical childCanonical
      Node.Canonical.empty (reflects.bare drops) firstUnreserved filter
  whole keeps complete := by
    cases filter with
    | everything _ =>
        change (Edit.ofChild caches.server.node first child).node ≈ _
        rw [Edit.node_ofChild_eq_setChild _ _ firstUnreserved]
        exact Node.setChild_congr (reflects.whole keeps complete)
          (agrees complete) reflects.canonical truthCanonical
          childCanonical trueChildCanonical first
    | within _ => cases keeps
    | limited _ => cases keeps
  parts drops complete key unreserved present := by
    rcases Filter.child_setChild_of_present reflects.canonical
        childCanonical firstUnreserved filter unreserved present with
      ⟨rfl, replaced⟩ | ⟨different, kept⟩
    · refine Setoid.trans replaced (Setoid.trans (agrees complete) ?_)
      exact Setoid.symm (Node.child_setChild_self truthCanonical
        trueChildCanonical unreserved)
    · dsimp only at present ⊢
      rw [kept] at present ⊢
      exact parts_of_ne reflects truthCanonical drops complete trueChild
        unreserved different present

/-- A copy stays a copy when one node is replaced on both sides. -/
theorem Reflects.overwriteServer
    {node : Node} (nodeCanonical : node.Canonical)
    {path : Path} (writable : path.Writable) :
    Reflects filter (truth.setDescendant path node)
      (overwriteServer filter caches path node) := by
  cases path with
  | nil => exact reflects_select nodeCanonical filter fun _ => Setoid.refl _
  | cons key rest =>
      rw [overwriteServer_cons reflects.filtered]
      by_cases reserved : key.isPriority = true
      · obtain rfl := writable.eq_nil_of_reserved reserved
        have written :
            truth.setDescendant [key] node = truth.setChild key node := by
          rw [Node.setDescendant, if_pos reserved]
        rw [written, List.isEmpty_nil, Bool.not_true, Bool.and_false,
          if_neg Bool.false_ne_true]
        dsimp only
        rw [if_pos reserved]
        exact reflects_setPriority reflects truthCanonical reserved node
      · have unreserved : key.isPriority = false := by
          simpa using reserved
        rw [Node.setDescendant_cons_of_not_priority unreserved]
        split
        · rename_i skipped
          have unknown := (Bool.and_eq_true_iff.mp skipped).1
          exact reflects_ignored reflects truthCanonical
            (by simpa using unknown) _
        · rename_i heeded
          refine reflects_setChild reflects truthCanonical unreserved
            ((reflects.canonical.child key).setDescendant nodeCanonical
              rest)
            ((truthCanonical.child key).setDescendant nodeCanonical rest)
            fun complete => ?_
          cases rest with
          | nil => exact Setoid.refl _
          | cons next further =>
              have known : caches.server.knowsChild key = true := by
                simpa using heeded
              exact Node.setDescendant_congr
                (child_of_known reflects complete unreserved known)
                (Setoid.refl _) (reflects.canonical.child key)
                (truthCanonical.child key) nodeCanonical nodeCanonical _

end

/-! ## All nodes of an operation -/

/-- A copy stays a copy when nodes are replaced on both sides. -/
theorem Reflects.learn
    (reflects : Reflects filter truth caches)
    (truthCanonical : truth.Canonical)
    {writes : List (Path × Node)}
    (canonical : ∀ write ∈ writes, write.2.Canonical)
    (writable : ∀ write ∈ writes, write.1.Writable) :
    Reflects filter (truth.lay writes) (learn filter caches writes) := by
  induction writes generalizing truth caches with
  | nil => exact reflects
  | cons write rest inductionHypothesis =>
      obtain ⟨first, others⟩ := List.forall_mem_cons.mp canonical
      obtain ⟨firstWritable, othersWritable⟩ :=
        List.forall_mem_cons.mp writable
      exact inductionHypothesis
        (reflects.overwriteServer truthCanonical first firstWritable)
        (truthCanonical.setDescendant first write.1) others othersWritable

end Caches

namespace View

/-- The view's copy of the data of the server agrees with the true data at its location. -/
def Reflects (truth : Node) (view : View) : Prop :=
  Caches.Reflects view.filter truth view.caches

/-- What a view can answer is true. -/
theorem Reflects.answer
    {view : View} {truth : Node} (reflects : view.Reflects truth)
    {below : Path} {node : Node}
    (answer : view.serverNode? below = some node) :
    node ≈ truth.descendant below := by
  unfold serverNode? at answer
  cases complete : view.caches.server.complete with
  | false =>
      rw [Cache.complete?_of_incomplete complete] at answer
      cases answer
  | true =>
      rw [Cache.complete?_of_complete complete] at answer
      dsimp only at answer
      split at answer
      · rename_i holds
        cases answer
        cases keepsAll : view.query.selection.keepsAll with
        | true =>
            exact Node.descendant_congr
              (reflects.whole (drops_of_keepsAll keepsAll) complete) below
        | false =>
            have drops : view.filter.drops = true :=
              drops_of_keepsAll keepsAll
            rw [keepsAll, Bool.false_or] at holds
            cases below with
            | nil => cases holds
            | cons key rest =>
                have present :
                    (view.caches.server.node.child key).isEmpty =
                      false := by
                  simpa using holds
                refine Node.descendant_congr ?_ rest
                by_cases reserved : key.isPriority = true
                · have bare := reflects.bare drops
                  unfold Node.child at present
                  rw [if_pos reserved] at present
                  unfold Node.priorityNode at present
                  rw [bare] at present
                  cases present
                · exact reflects.parts drops complete key
                    (by simpa using reserved) present
      · cases answer

end View

end Replica
