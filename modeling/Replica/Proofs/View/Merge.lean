import Replica.Proofs.Overlay.Landing
import Replica.Proofs.Pending.Replay
import Replica.Proofs.View.Reflection

/-!
# Merges that the server sends

A merge that comes from the server goes into the data of the server write by write, in the order of
the paths, while the same merge among the pending writes holds its priorities back. Both give the
same data, and the same priorities as far as these land on lasting data.
-/

namespace Replica.Caches

/-- A merge at the location of a view that keeps every child changes complete data of the server as
it would change a node among the pending writes, except that a priority is lost which does not land
on lasting data. -/
theorem server_merge_same_iff
    {caches : Caches} (canonical : caches.Canonical)
    (complete : caches.server.complete = true)
    (unfiltered : caches.server.filtered = false) (index : Index)
    {nodes : Overlay} (valid : nodes.Valid)
    (writable : ∀ write ∈ nodes.writes, write.1.Writable)
    {vantage : Vantage} (sound : vantage.pending.Sound)
    {ancestor? : Option Node}
    (ancestorCanonical : ∀ ancestor ∈ ancestor?, ancestor.Canonical) :
    ∃ update,
      caches.apply (.everything index) (.merge .server [] nodes) vantage
          ancestor? = .ok update ∧
        update.caches.server.node.dataEq
            (nodes.apply caches.server.node) = true ∧
        (update.caches.server.node.same
            (nodes.apply caches.server.node) = true ↔
          nodes.Lands caches.server.node) := by
  have legal : (Operation.merge .server [] nodes).Valid := valid
  obtain ⟨ledger, applied, _⟩ :=
    apply_ok sound canonical ancestorCanonical legal (.everything index)
  refine ⟨_, applied, ?_⟩
  have before : Reflects (.everything index) caches.server.node caches :=
    ⟨canonical.server, unfiltered, nofun, fun _ _ => Setoid.refl _, nofun⟩
  have learned := before.learn canonical.server valid.canonical writable
  have isComplete :
      (learn (.everything index) caches nodes.writes).server.complete =
        true := by
    rw [complete_learn, complete, Bool.true_or]
  have reflected := learned.whole rfl isComplete
  -- Made at the root, the merge is received as its writes are.
  change
    (learn (.everything index) caches nodes.writes).server.node.dataEq _ =
        true ∧
      ((learn (.everything index) caches nodes.writes).server.node ≈ _ ↔ _)
  refine ⟨?_, ?_⟩
  · exact Node.dataEq_trans (Node.dataEq_of_equiv reflected)
      (Overlay.dataEq_lay_writes valid canonical.server)
  · rw [← Overlay.lay_writes_equiv_iff valid writable canonical.server]
    exact ⟨Setoid.trans (Setoid.symm reflected), Setoid.trans reflected⟩

/-- A priority for a child that has data already, beside a deletion. -/
def priorityOnData : Overlay :=
  .ofWrites
    [([⟨"a"⟩, .priority], .ofScalar (.text "p")),
      ([⟨"a"⟩, ⟨"y"⟩], .ofScalar (.bool true)),
      ([⟨"b"⟩], .empty)]

/-- A priority for a child that the same merge brings. -/
def priorityBeforeData : Overlay :=
  .ofWrites
    [([⟨"a"⟩, .priority], .ofScalar (.text "p")),
      ([⟨"a"⟩, ⟨"x"⟩], .ofScalar (.bool true))]

/-- Complete data of the server, shown as they are. -/
def settled (node : Node) : Caches :=
  ⟨⟨node, true, false⟩, ⟨node, true, false⟩⟩

theorem server_merge_same_iff_priority_on_data :
    let data := Node.branch
      [(⟨"a"⟩, .branch [(⟨"x"⟩, .ofScalar (.bool true))] none),
        (⟨"b"⟩, .ofScalar (.bool true))] none
    ∃ update,
      (settled data).apply (.everything .priority)
          (.merge .server [] priorityOnData) (Pending.at {} []) none =
        .ok update ∧
        update.caches.server.node.same (priorityOnData.apply data) = true ∧
        priorityOnData.Lands data := by
  intro data
  have canonical : data.Canonical :=
    (Node.Canonical.empty.setDescendant (Node.Canonical.ofScalar (.bool true))
      [⟨"a"⟩, ⟨"x"⟩]).setDescendant (Node.Canonical.ofScalar (.bool true))
      [⟨"b"⟩]
  have valid : priorityOnData.Valid := Overlay.Valid.ofWrites (by
    simp [Node.Canonical.ofScalar, Node.Canonical.empty])
  have writes : priorityOnData.writes =
      [([⟨"a"⟩, .priority], .ofScalar (.text "p")),
        ([⟨"a"⟩, ⟨"y"⟩], .ofScalar (.bool true)), ([⟨"b"⟩], .empty)] :=
    rfl
  have writable : ∀ write ∈ priorityOnData.writes, write.1.Writable := by
    simp [writes, Path.Writable, Path.Unreserved, Key.isPriority,
      Key.priority]
  have both : (settled data).Canonical := ⟨canonical, canonical⟩
  obtain ⟨update, applied, _, same_iff⟩ :=
    @server_merge_same_iff (settled data) both rfl rfl .priority
      priorityOnData valid writable (Pending.at {} [])
      (Pending.queued_empty none).sound none
      fun _ known => absurd known (Option.not_mem_none _)
  have shown :
      ((settled data).apply (.everything .priority)
          (.merge .server [] priorityOnData) (Pending.at {} []) none).toOption.any
        (fun update => update.caches.server.node.same
          (priorityOnData.apply data)) = true := by
    decide +kernel
  rw [applied] at shown
  exact ⟨update, applied, shown, same_iff.mp shown⟩

/-- The server's merge loses the priority of the child that it brings. -/
theorem server_merge_loses_priority :
    let data := Node.branch [(⟨"b"⟩, .ofScalar (.bool true))] none
    ∃ update,
      (settled data).apply (.everything .priority)
          (.merge .server [] priorityBeforeData) (Pending.at {} []) none =
        .ok update ∧
        (update.caches.server.node.child ⟨"a"⟩).priority? = none ∧
        ((priorityBeforeData.apply data).child ⟨"a"⟩).priority?.isSome =
          true ∧
        update.caches.server.node.same (priorityBeforeData.apply data) =
          false :=
  ⟨_, rfl, rfl, rfl, rfl⟩

end Replica.Caches
