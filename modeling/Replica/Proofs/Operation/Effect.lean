import Replica.Proofs.Operation

/-!
# What operations make of a tree

An operation that is routed downward is rewritten for the location that receives it. What it makes
of the part of a tree at that location is what the original makes of the whole, looked at from
there; where it is not passed on, the original leaves that part alone.
-/

namespace Replica.Operation

/-- The tree with the nodes of an operation put in place in path order. A rejected write and the
end of the initial data put nothing in place. -/
def onto (operation : Operation) (tree : Node) : Node :=
  match operation with
  | .overwrite _ path node => tree.setDescendant path node
  | .merge _ path nodes =>
    nodes.writes.foldl
      (fun all (below, node) => all.setDescendant (path ++ below) node) tree
  | .acknowledge path false nodes =>
    nodes.writes.foldl
      (fun all (below, node) => all.setDescendant (path ++ below) node) tree
  | .acknowledge _ true _ => tree
  | .listenComplete _ => tree

def rejects : Operation → Bool
  | .acknowledge _ rejected _ => rejected
  | _ => false

private theorem onto_of_rejects
    {operation : Operation} (rejected : operation.rejects = true)
    (tree : Node) : operation.onto tree = tree := by
  cases operation with
  | acknowledge path flag nodes =>
      change flag = true at rejected
      subst rejected
      rfl
  | _ => cases rejected

private theorem onto_eq_lay
    {operation : Operation} (accepted : operation.rejects = false)
    (tree : Node) : operation.onto tree = tree.lay operation.writes := by
  have folded (path : Path) (nodes : Overlay) :
      nodes.writes.foldl
          (fun all write => all.setDescendant (path ++ write.1) write.2)
          tree =
        tree.lay (nodes.writesBelow path) := by
    unfold Node.lay Overlay.writesBelow
    rw [List.foldl_map]
  cases operation with
  | overwrite source path node =>
      unfold writes nodes
      dsimp only
      rw [Overlay.writesBelow_ofNode]
      rfl
  | merge source path nodes => exact folded path nodes
  | acknowledge path flag nodes =>
      change flag = false at accepted
      subst accepted
      exact folded path nodes
  | listenComplete path => rfl

/-! ## A rejection is passed on as one -/

@[simp]
private theorem rejects_withPath (operation : Operation) (path : Path) :
    (operation.withPath path).rejects = operation.rejects := by
  cases operation <;> rfl

private theorem rejects_of_descend?
    {operation shown : Operation} {key : Key}
    (descends : operation.descend? key = some shown) :
    shown.rejects = operation.rejects := by
  cases operation with
  | overwrite source path node =>
      cases descends
      rfl
  | merge source path nodes =>
      unfold descend? at descends
      dsimp only at descends
      split at descends
      · cases descends
      · split at descends
        · cases descends
          rfl
        · cases descends
          rfl
  | acknowledge path rejected nodes =>
      unfold descend? at descends
      dsimp only at descends
      split at descends
      · cases descends
      · cases descends
        rfl
  | listenComplete path =>
      cases descends
      rfl

private theorem rejects_of_relativeTo?
    {operation shown : Operation} {base : Path}
    (reaches : operation.relativeTo? base = some shown) :
    shown.rejects = operation.rejects := by
  refine holds_of_relativeTo?
    (fun seen => seen.rejects = operation.rejects) ?_ ?_ reaches rfl
  · intro seen path _ same
    exact (rejects_withPath seen path).trans same
  · intro seen key middle descends same
    exact (rejects_of_descend? descends).trans same

/-! ## The part at a location -/

section

variable {operation : Operation} (valid : operation.Valid) {tree : Node}
  (canonical : tree.Canonical) {base : Path} (unreserved : base.Unreserved)

include valid canonical unreserved

private theorem descendant_onto
    {shown : Operation} (reaches : operation.relativeTo? base = some shown) :
    (operation.onto tree).descendant base ≈
      shown.onto (tree.descendant base) := by
  have passedOn := rejects_of_relativeTo? reaches
  cases rejected : operation.rejects with
  | true =>
      rw [onto_of_rejects rejected,
        onto_of_rejects (passedOn.trans rejected)]
  | false =>
      rw [onto_eq_lay rejected, onto_eq_lay (passedOn.trans rejected),
        (shows_of_relativeTo? valid reaches).writes]
      exact Node.descendant_lay canonical unreserved
        valid.canonical_of_mem_writes

private theorem descendant_onto_of_missed
    (misses : operation.relativeTo? base = none) :
    (operation.onto tree).descendant base ≈ tree.descendant base := by
  cases rejected : operation.rejects with
  | true =>
      rw [onto_of_rejects rejected]
  | false =>
      have shown := Node.descendant_lay canonical unreserved
        valid.canonical_of_mem_writes
      rw [unseen_of_relativeTo? valid misses, Node.lay_nil] at shown
      rw [onto_eq_lay rejected]
      exact shown

/-- Routing an operation downward is sound at every location. -/
theorem routed_alike :
    match operation.relativeTo? base with
    | some shown =>
        ((operation.onto tree).descendant base).same
          (shown.onto (tree.descendant base)) = true
    | none =>
        ((operation.onto tree).descendant base).same
          (tree.descendant base) = true := by
  cases reaches : operation.relativeTo? base with
  | some shown => exact descendant_onto valid canonical unreserved reaches
  | none =>
      exact descendant_onto_of_missed valid canonical unreserved reaches

end

/-- Writes below two children, of which one is deleted. -/
def belowAndDeleted : Overlay :=
  .ofWrites
    [([⟨"b"⟩, ⟨"x"⟩], .branch [(⟨"y"⟩, .ofScalar (.bool true))] none),
      ([⟨"c"⟩], .empty)]

theorem routed_alike_below_and_beside :
    let accepted := Operation.acknowledge [⟨"a"⟩] false belowAndDeleted
    let merged := Operation.merge .server [⟨"a"⟩] belowAndDeleted
    let tree := Node.branch
      [(⟨"a"⟩, .branch
        [(⟨"b"⟩, .leaf (.bool false) (some (.text "q"))),
          (⟨"d"⟩, .ofScalar (.bool true))] none)] none
    (∃ shown, accepted.relativeTo? [⟨"a"⟩, ⟨"b"⟩] = some shown ∧
      ((accepted.onto tree).descendant [⟨"a"⟩, ⟨"b"⟩]).same
        (shown.onto (tree.descendant [⟨"a"⟩, ⟨"b"⟩])) = true) ∧
      (∃ shown, merged.relativeTo? [⟨"a"⟩, ⟨"b"⟩, ⟨"x"⟩] = some shown ∧
        ((merged.onto tree).descendant [⟨"a"⟩, ⟨"b"⟩, ⟨"x"⟩]).same
          (shown.onto (tree.descendant [⟨"a"⟩, ⟨"b"⟩, ⟨"x"⟩])) = true) ∧
        merged.relativeTo? [⟨"a"⟩, ⟨"d"⟩] = none ∧
          ((merged.onto tree).descendant [⟨"a"⟩, ⟨"d"⟩]).same
            (tree.descendant [⟨"a"⟩, ⟨"d"⟩]) = true := by
  intro accepted merged tree
  have valid : belowAndDeleted.Valid := by
    apply Overlay.Valid.ofWrites
    simp only [List.mem_cons, List.not_mem_nil, or_false]
    rintro write (rfl | rfl)
    · exact Node.Canonical.empty.setDescendant
        (Node.Canonical.ofScalar (.bool true)) [⟨"y"⟩]
    · exact Node.Canonical.empty
  have canonical : tree.Canonical :=
    (Node.Canonical.empty.setDescendant
      (Node.Canonical.leaf (.bool false) (some (.text "q")))
      [⟨"a"⟩, ⟨"b"⟩]).setDescendant (Node.Canonical.ofScalar (.bool true))
      [⟨"a"⟩, ⟨"d"⟩]
  have acceptedValid : accepted.Valid := valid
  have mergedValid : merged.Valid := valid
  obtain ⟨first, second, third⟩ :
      Path.Unreserved [⟨"a"⟩, ⟨"b"⟩] ∧
        Path.Unreserved [⟨"a"⟩, ⟨"b"⟩, ⟨"x"⟩] ∧
          Path.Unreserved [⟨"a"⟩, ⟨"d"⟩] := by
    simp [Path.Unreserved, Key.isPriority, Key.priority]
  exact ⟨⟨_, rfl, routed_alike acceptedValid canonical first⟩,
    ⟨_, rfl, routed_alike mergedValid canonical second⟩, rfl,
    routed_alike mergedValid canonical third⟩

end Replica.Operation
