import Replica.Proofs.Pending.Survival

/-!
# Pending writes seen from below

A location sees the writes at it and below it, and what the ones above it put there. Laid over the
data found at the location they give the same as all writes over all data, looked at from there,
also where a write beside the location turns a leaf above it into a branch or empties a node.
-/

namespace Replica

namespace Overlay

/-- The overlays of canonical nodes that the operations on overlays give. -/
inductive Built : Overlay → Prop where
  | empty : Built .empty
  | ofNode {node : Node} (canonical : node.Canonical) :
      Built (.ofNode node)
  | ofWrites {writes : List (Path × Node)}
      (canonical : ∀ write ∈ writes, write.2.Canonical) :
      Built (.ofWrites writes)
  | add {overlay : Overlay} (built : Built overlay)
      (path : Path) {node : Node} (canonical : node.Canonical) :
      Built (overlay.add path node)
  | addBelow {overlay other : Overlay} (built : Built overlay)
      (path : Path) (otherBuilt : Built other) :
      Built (overlay.addBelow path other)
  | restrict {overlay : Overlay} (built : Built overlay) (path : Path) :
      Built (overlay.restrict path)

theorem Built.valid {overlay : Overlay} (built : overlay.Built) :
    overlay.Valid := by
  induction built with
  | empty => exact .empty
  | ofNode canonical => exact .ofNode canonical
  | ofWrites canonical => exact .ofWrites canonical
  | add _ path canonical inductionHypothesis =>
      exact inductionHypothesis.add canonical path
  | addBelow _ path _ inductionHypothesis otherHypothesis =>
      rw [addBelow_eq_adds]
      exact inductionHypothesis.adds
        (otherHypothesis.canonical_of_mem_writesBelow path)
  | restrict _ path inductionHypothesis =>
      exact inductionHypothesis.restrict path

end Overlay

namespace Pending

private theorem Queued.attempt
    {pending : Pending} (queued : pending.Queued)
    {act : Act} (valid : act.Valid) : (pending.attempt act).Queued := by
  unfold Pending.attempt
  cases done : pending.act act with
  | error _ => exact queued
  | ok next => exact (queued.act valid done).1

theorem Queued.attempts
    {pending : Pending} (queued : pending.Queued)
    {acts : List Act} (valid : ∀ act ∈ acts, act.Valid) :
    (pending.attempts acts).Queued := by
  induction acts generalizing pending with
  | nil => exact queued
  | cons first rest inductionHypothesis =>
      obtain ⟨firstValid, othersValid⟩ := List.forall_mem_cons.mp valid
      exact inductionHypothesis (queued.attempt firstValid) othersValid

/-- Over data at a location and over its part below, the two locations show alike. -/
theorem node?_descendant
    {pending : Pending} (sound : pending.Sound) (path : Path)
    {below : Path} (unreserved : below.Unreserved)
    {data : Node} (canonical : data.Canonical) :
    ∃ whole part,
      pending.node? path (some data) false = some whole ∧
        pending.node? (path ++ below) (some (data.descendant below)) false =
          some part ∧
        part ≈ whole.descendant below := by
  refine ⟨pending.laidOver path data,
    pending.laidOver (path ++ below) (data.descendant below), ?_, ?_, ?_⟩
  · rw [node?_eq sound]
    rfl
  · rw [node?_eq sound]
    rfl
  · exact Setoid.symm
      (descendant_laidOver sound path unreserved canonical)

/-- Restricting writes to a location commutes with laying them over a node. So a location shows,
whatever calls have been made on the pending writes, the part that the root shows there. -/
theorem restriction_commutes
    {overlay : Overlay} (built : overlay.Built)
    (limit? : Option Nat) {acts : List Act}
    (valid : ∀ act ∈ acts, act.Valid)
    {data : Node} (canonical : data.Canonical)
    {base : Path} (unreserved : base.Unreserved) :
    ((overlay.restrict base).apply (data.descendant base)).same
        ((overlay.apply data).descendant base) = true ∧
      ∃ whole part,
        (({ limit? := limit? } : Pending).attempts acts).node? []
            (some data) false = some whole ∧
          (({ limit? := limit? } : Pending).attempts acts).node? base
              (some (data.descendant base)) false = some part ∧
          part.same (whole.descendant base) = true := by
  constructor
  · exact Setoid.symm
      (Overlay.descendant_apply built.valid unreserved canonical)
  · have queued := (queued_empty limit?).attempts valid
    exact node?_descendant queued.sound [] unreserved canonical

/-- Writes below a leaf and a priority, beside a deletion. -/
def belowAndBeside : Overlay :=
  .ofWrites
    [([⟨"a"⟩, .priority], .ofScalar (.text "p")),
      ([⟨"b"⟩], .empty),
      ([⟨"a"⟩, ⟨"x"⟩], .ofScalar (.bool true))]

theorem restriction_commutes_below_and_beside :
    let data := Node.branch
      [(⟨"a"⟩, .leaf (.bool false) (some (.text "q"))),
        (⟨"b"⟩, .ofScalar (.bool true))] none
    let pending := ({ limit? := some 3 } : Pending).attempts childAndParent
    ((belowAndBeside.apply data).descendant [⟨"a"⟩]).same
        (.branch [(⟨"x"⟩, .ofScalar (.bool true))] (some (.text "p"))) =
          true ∧
      ((belowAndBeside.restrict [⟨"a"⟩]).apply
          (data.descendant [⟨"a"⟩])).same
        ((belowAndBeside.apply data).descendant [⟨"a"⟩]) = true ∧
      ∃ whole part,
        pending.node? [] (some data) false = some whole ∧
          pending.node? [⟨"a"⟩] (some (data.descendant [⟨"a"⟩])) false =
            some part ∧
          part.same (whole.descendant [⟨"a"⟩]) = true := by
  intro data pending
  have built : belowAndBeside.Built := by
    refine .ofWrites fun write member => ?_
    rcases List.mem_cons.mp member with rfl | member
    · exact Node.Canonical.ofScalar _
    · rcases List.mem_cons.mp member with rfl | member
      · exact Node.Canonical.empty
      · rw [List.mem_singleton.mp member]
        exact Node.Canonical.ofScalar _
  have valid : ∀ act ∈ childAndParent, act.Valid := by
    simp [childAndParent, Act.Valid, Node.Canonical.ofScalar,
      Node.Canonical.empty, Overlay.Valid.ofNode]
  have canonical : data.Canonical :=
    (Node.Canonical.empty.setDescendant
      (Node.Canonical.leaf (.bool false) (some (.text "q")))
      [⟨"a"⟩]).setDescendant (Node.Canonical.ofScalar (.bool true)) [⟨"b"⟩]
  refine ⟨by decide, ?_⟩
  exact restriction_commutes built (some 3) valid canonical
    (Path.unreserved_singleton rfl)

end Pending

end Replica
