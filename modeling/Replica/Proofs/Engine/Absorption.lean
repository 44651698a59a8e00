import Replica.Proofs.Engine.Residue

/-!
# Operations that change nothing

A view over complete data of the server shows after an operation what it showed before exactly if
what it computes anew is there already.
-/

namespace Replica

namespace View

/-- The data of the server that a view holds after an operation. -/
def dataAfter (view : View) (operation : Operation) : Node :=
  (Caches.receive view.filter view.caches operation).server.node

/-- A view takes an operation without a change. The children that it shows are those that the
pending writes after the operation give over the new data of the server, and so is the whole where
it is computed anew: if the operation touches everything, or nothing is shown. -/
structure Absorbs (pending next : Pending) (operation : Operation)
    (view : View) : Prop where
  children : ∀ key : Key, key.isPriority = false →
    ((pending.laidOver view.query.path view.caches.server.node).child
        key).same
      ((next.laidOver view.query.path (view.dataAfter operation)).child
        key) = true
  whole : operation.scope = .all ∨
      view.caches.visible.node.isEmpty = true →
    view.caches.visible.node.same
      (next.laidOver view.query.path (view.dataAfter operation)) = true

section

variable {old : View} {pending next : Pending} (fresh : old.Fresh pending)
  (sound : pending.Sound) (nextSound : next.Sound)
  (canonical : old.caches.Canonical)
  (keepsAll : old.query.selection.keepsAll = true)
  (complete : old.caches.server.complete = true)

include fresh complete in
theorem visible_complete : old.caches.visible.complete = true := by
  rw [fresh.known, complete]
  rfl

include fresh sound canonical keepsAll complete in
/-- The children that a view shows are those that the pending writes give over its data of the
server. -/
theorem child_visible
    {key : Key} (unreserved : key.isPriority = false) :
    old.caches.visible.node.child key ≈
      (pending.laidOver old.query.path old.caches.server.node).child key :=
  Setoid.trans
    (fresh.children keepsAll (visible_complete fresh complete) key
      unreserved)
    (Setoid.symm (Pending.child_laidOver sound _ unreserved
      canonical.server))

variable {ancestor? : Option Node}
  (ancestorCanonical : ∀ ancestor ∈ ancestor?, ancestor.Canonical)
  {operation relative : Operation}
  (shows : operation.Shows relative old.query.path)
  (valid : operation.Valid)
  (turns : Overlay.Turns pending.overlay next.overlay operation.writes)

include fresh sound nextSound canonical keepsAll complete shows

theorem Absorbs.same_after
    (absorbs : old.Absorbs pending next relative) :
    old.caches.visible.node ≈
      (old.after relative (next.at old.query.path)
        ancestor?).caches.visible.node := by
  have everything : old.filter = .everything old.query.selection.index :=
    Selection.filter_of_keepsAll keepsAll
  have nextComplete :=
    Caches.complete_receive_of_complete complete old.filter relative
  cases scope : relative.scope with
  | all =>
      rw [visible_after_all nextSound keepsAll nextComplete scope]
      exact absorbs.whole (Or.inl scope)
  | children keys =>
      -- Each child that is computed anew is there already, so the old node is patched with its
      -- own children. Only a leaf in place of nothing replaces the whole.
      have unfiltered : (Caches.receive old.filter old.caches
          relative).server.filtered = false := by
        rw [Caches.filtered_receive fresh.filtered relative, everything]
        rfl
      have known : ((Caches.receive old.filter old.caches
          relative).server.complete ||
            ((next.at old.query.path).shadow? []).isSome) = true := by
        rw [nextComplete]
        rfl
      have shown : ∀ key ∈ keys, ∃ child,
          (next.at old.query.path).child? key (Caches.receive old.filter
              old.caches relative).server = some child ∧
            old.caches.visible.node.child key ≈ child := by
        intro key member
        have unreserved := (Operation.covers_of_scope scope).1 key member
        refine ⟨_, @Caches.child?_of_known (next.at old.query.path) _
          nextSound unfiltered known key, ?_⟩
        refine Setoid.trans (child_visible fresh sound canonical keepsAll
          complete unreserved) ?_
        exact Setoid.trans (absorbs.children key unreserved)
          (Pending.child_laidOver nextSound _ unreserved
            (Caches.canonical_receive canonical.server shows.valid _))
      have result :=
        @Caches.visibleAfter_of_shown old.query.selection.index _
          (next.at old.query.path) nextSound nextComplete ancestor? _ _
          shown
      rw [← everything, ← scope] at result
      change _ ≈ Caches.visibleAfter old.filter _ _ _ _ relative.scope
      rw [result]
      split
      · rename_i replaced
        exact absorbs.whole (Or.inr (Bool.and_eq_true_iff.mp replaced).1)
      · exact Setoid.refl _

include ancestorCanonical valid turns

theorem absorbs_of_same_after
    (same : old.caches.visible.node ≈
      (old.after relative (next.at old.query.path)
        ancestor?).caches.visible.node) :
    old.Absorbs pending next relative := by
  have nextComplete :=
    Caches.complete_receive_of_complete complete old.filter relative
  have nextCanonical :=
    Pending.canonical_laidOver nextSound old.query.path
      (Caches.canonical_receive canonical.server shows.valid old.filter)
  have after (key : Key) (unreserved : key.isPriority = false) :=
    Setoid.trans (Node.child_congr same key)
      (child_after fresh sound nextSound canonical ancestorCanonical shows
        valid turns keepsAll nextComplete unreserved)
  refine ⟨fun key unreserved => ?_, fun anew => ?_⟩
  · exact Setoid.trans (Setoid.symm (child_visible fresh sound canonical
      keepsAll complete unreserved)) (after key unreserved)
  · cases scope : relative.scope with
    | all =>
        rw [visible_after_all nextSound keepsAll nextComplete scope] at same
        exact same
    | children keys =>
        rw [scope] at anew
        have noData := anew.resolve_left nofun
        obtain ⟨computed, _, result⟩ :=
          @Caches.visibleAfter_of_children old.query.selection.index
            (Caches.receive old.filter old.caches relative).server
            (next.at old.query.path) nextSound nextComplete ancestor?
            old.caches.visible.node keys
            (Operation.covers_of_scope scope).1
        rw [← Selection.filter_of_keepsAll keepsAll, ← scope] at result
        change _ ≈ Caches.visibleAfter old.query.selection.filter _ _ _ _
          relative.scope at same
        rw [result] at same
        -- The children that are shown determine an empty node, but not whether the computed
        -- node is a leaf, which has no children either.
        cases leaf : (next.laidOver old.query.path
          (old.dataAfter relative)).isLeaf with
        | true =>
            split at same
            · exact same
            · rename_i kept
              have nothing := Node.isEmpty_congr same
              rw [noData] at nothing
              exact absurd (Bool.and_eq_true_iff.mpr
                ⟨nothing.symm, leaf⟩) kept
        | false =>
            exact Node.equiv_of_isEmpty canonical.visible nextCanonical
              noData leaf after

end

end View

end Replica
