import Replica.Proofs.Overlay.Restrict

/-!
# Overlays laid over nodes

An overlay lays its data first and its priorities last. Looking at a location of the result is
laying what is seen of the overlay from there over the data of the location, so the children of
the result can be computed one by one.
-/

namespace Replica.Overlay

/-- The writes in the order in which they are laid over a node. -/
def laid (overlay : Overlay) : List (Path × Node) :=
  overlay.writes.filter (fun write => !isPriorityPath write.1) ++
    overlay.writes.filter fun write => isPriorityPath write.1

theorem apply_eq_lay (overlay : Overlay) (node : Node) :
    overlay.apply node = node.lay overlay.laid := by
  unfold apply laid Node.lay
  rw [List.partition_eq_filter_filter]
  rfl

@[simp]
theorem mem_laid {overlay : Overlay} {write : Path × Node} :
    write ∈ overlay.laid ↔ write ∈ overlay.writes := by
  unfold laid
  rw [List.mem_append, List.mem_filter, List.mem_filter]
  cases isPriorityPath write.1 with
  | true => simp
  | false => simp

theorem Valid.canonical_of_mem_laid
    {overlay : Overlay} (valid : overlay.Valid) :
    ∀ write ∈ overlay.laid, write.2.Canonical :=
  fun write member => valid.canonical write (mem_laid.mp member)

theorem Valid.apply
    {overlay : Overlay} (valid : overlay.Valid)
    {node : Node} (canonical : node.Canonical) :
    (overlay.apply node).Canonical := by
  rw [apply_eq_lay]
  exact canonical.lay valid.canonical_of_mem_laid

private theorem forall₂_filter
    (keep : Path → Bool) {writes others : List (Path × Node)}
    (related : List.Forall₂ (fun a b => a.1 = b.1 ∧ a.2 ≈ b.2)
      writes others) :
    List.Forall₂ (fun a b => a.1 = b.1 ∧ a.2 ≈ b.2)
      (writes.filter fun write => keep write.1)
      (others.filter fun write => keep write.1) := by
  induction related with
  | nil => exact List.Forall₂.nil
  | @cons write other rest otherRest head _ inductionHypothesis =>
      rw [List.filter_cons, List.filter_cons, ← head.1]
      split
      · exact List.Forall₂.cons head inductionHypothesis
      · exact inductionHypothesis

private theorem laid_congr
    {left right : Overlay} (equal : left ≈ right) :
    List.Forall₂ (fun a b => a.1 = b.1 ∧ a.2 ≈ b.2)
      left.laid right.laid :=
  List.rel_append
    (forall₂_filter (fun path => !isPriorityPath path) equal)
    (forall₂_filter isPriorityPath equal)

theorem apply_congr
    {left right : Overlay} (equal : left ≈ right)
    (leftValid : left.Valid) (rightValid : right.Valid)
    {node other : Node} (sameNode : node ≈ other)
    (nodeCanonical : node.Canonical) (otherCanonical : other.Canonical) :
    left.apply node ≈ right.apply other := by
  rw [apply_eq_lay, apply_eq_lay]
  exact Node.lay_congr sameNode nodeCanonical otherCanonical
    (laid_congr equal) leftValid.canonical_of_mem_laid
    rightValid.canonical_of_mem_laid

theorem apply_of_isEmpty
    {overlay : Overlay} (noWrites : overlay.isEmpty = true)
    (node : Node) : overlay.apply node = node := by
  have nothing : overlay = empty :=
    ext_writes (List.isEmpty_iff.mp noWrites)
  rw [nothing]
  rfl

/-- A write at the root hides what it is laid over. -/
theorem apply_of_root?
    {overlay : Overlay} (valid : overlay.Valid)
    {root : Node} (stored : overlay.root? = some root) (node : Node) :
    overlay.apply node = root := by
  have alone : overlay = ofNode root :=
    ext_writes (writes_of_root? valid stored)
  rw [alone]
  rfl

private theorem filterMap_seenFrom_laid
    {overlay : Overlay} (valid : overlay.Valid)
    {base : Path} (unreserved : base.Unreserved) :
    overlay.laid.filterMap (seenFrom base) =
      (overlay.restrict base).laid := by
  have kept (keep : Bool → Bool) (writes : List (Path × Node)) :
      (writes.filter fun write =>
          keep (isPriorityPath write.1)).filterMap (seenFrom base) =
        (writes.filterMap (seenFrom base)).filter fun write =>
          keep (isPriorityPath write.1) := by
    rw [List.filterMap_filter, List.filter_filterMap]
    refine List.filterMap_congr fun write _ => ?_
    cases isSeen : seenFrom base write with
    | none => simp
    | some seen =>
        rw [Option.filter_some,
          isPriorityPath_of_seenFrom unreserved isSeen]
  unfold laid
  rw [List.filterMap_append, kept (fun ends => !ends),
    kept (fun ends => ends), writes_restrict valid]

/-- The data of a location below an overlaid node can be computed at that location. -/
theorem descendant_apply
    {overlay : Overlay} (valid : overlay.Valid)
    {base : Path} (unreserved : base.Unreserved)
    {node : Node} (canonical : node.Canonical) :
    (overlay.apply node).descendant base ≈
      (overlay.restrict base).apply (node.descendant base) := by
  rw [apply_eq_lay, apply_eq_lay,
    ← filterMap_seenFrom_laid valid unreserved]
  exact Node.descendant_lay canonical unreserved
    valid.canonical_of_mem_laid

theorem child_apply
    {overlay : Overlay} (valid : overlay.Valid)
    {key : Key} (unreserved : key.isPriority = false)
    {node : Node} (canonical : node.Canonical) :
    (overlay.apply node).child key ≈
      (overlay.restrict [key]).apply (node.child key) :=
  descendant_apply valid (Path.unreserved_singleton unreserved) canonical

end Replica.Overlay
