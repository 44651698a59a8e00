import Replica.Proofs.Node.Children
import Replica.Proofs.Node.Read

/-!
# Nodes as they are built

The nodes that constructors, updates and readers give are exactly the canonical ones. On them a
replaced descendant is read back, replacing a descendant by itself changes nothing, and a
replacement in two stages is one at the joined path.
-/

namespace Replica.Node

/-- The nodes that can be built: constructed, read, looked up in another one or updated. -/
inductive Built : Node → Prop
  | empty : Built Node.empty
  | ofScalar (value : Scalar) : Built (Node.ofScalar value)
  | ofChildren {entries : List (Key × Node)}
      (built : ∀ entry ∈ entries, Built entry.2) :
      Built (Node.ofChildren entries)
  | ofJson {document : Json} {node : Node}
      (read : Node.ofJson document = .ok node) : Built node
  | ofText {text : String} {node : Node}
      (read : Node.ofText text = .ok node) : Built node
  | priorityNode {node : Node} (built : Built node) :
      Built node.priorityNode
  | child {node : Node} (built : Built node) (key : Key) :
      Built (node.child key)
  | descendant {node : Node} (built : Built node) (path : Path) :
      Built (node.descendant path)
  | setPriority {node : Node} (built : Built node)
      (priority : Option Priority) : Built (node.setPriority priority)
  | setChild {node child : Node} (built : Built node)
      (childBuilt : Built child) (key : Key) :
      Built (node.setChild key child)
  | setDescendant {node replacement : Node} (built : Built node)
      (replacementBuilt : Built replacement) (path : Path) :
      Built (node.setDescendant path replacement)

private theorem canonical_of_ofText
    {text : String} {node : Node} (read : ofText text = .ok node) :
    node.Canonical := by
  unfold ofText at read
  split at read
  · exact canonical_of_ofJson read
  · cases read

/-- Whatever is built is canonical. -/
theorem Built.canonical {node : Node} (built : node.Built) :
    node.Canonical := by
  induction built with
  | empty => exact Canonical.empty
  | ofScalar value => exact Canonical.ofScalar value
  | ofChildren _ inductionHypothesis =>
      exact Canonical.ofChildren inductionHypothesis
  | ofJson read => exact canonical_of_ofJson read
  | ofText read => exact canonical_of_ofText read
  | priorityNode _ _ => exact Canonical.priorityNode _
  | child _ key inductionHypothesis => exact inductionHypothesis.child key
  | descendant _ path inductionHypothesis =>
      exact inductionHypothesis.descendant path
  | setPriority _ priority inductionHypothesis =>
      exact inductionHypothesis.setPriority priority
  | setChild _ _ key nodeHypothesis childHypothesis =>
      exact nodeHypothesis.setChild childHypothesis key
  | setDescendant _ _ path nodeHypothesis replacementHypothesis =>
      exact nodeHypothesis.setDescendant replacementHypothesis path

@[simp]
private theorem setPriority_ofScalar
    (value : Scalar) (priority : Option Priority) :
    (ofScalar value).setPriority priority = leaf value priority := by
  cases priority with
  | none => rfl
  | some priority => rfl

/-- A canonical branch is made of its children and its priority. -/
@[simp]
theorem setPriority_ofChildren
    {children : List (Key × Node)} {priority : Option Priority}
    (canonical : (branch children priority).Canonical) :
    (ofChildren children).setPriority priority =
      branch children priority := by
  have made : ofChildren children = ofSorted children none :=
    ofChildren_children canonical
  rw [made]
  cases children with
  | nil =>
      cases canonical with
      | branch _ _ _ _ bare =>
          rw [bare rfl]
          rfl
  | cons entry rest =>
      cases priority with
      | none => rfl
      | some priority => rfl

/-- Whatever is canonical can be built from its parts. -/
theorem Canonical.built {node : Node} (canonical : node.Canonical) :
    node.Built := by
  induction node using induct with
  | leaf value priority =>
      rw [← setPriority_ofScalar]
      exact (Built.ofScalar value).setPriority priority
  | branch children priority inductionHypothesis =>
      rw [← setPriority_ofChildren canonical]
      refine (Built.ofChildren fun entry member => ?_).setPriority priority
      exact inductionHypothesis entry member
        (canonical.of_mem_children member)

theorem built_iff_canonical {node : Node} :
    node.Built ↔ node.Canonical :=
  ⟨Built.canonical, Canonical.built⟩

/-! ## Laws of replacement -/

/-- A descendant put back where it was changes nothing. -/
@[simp]
theorem setDescendant_descendant
    {path : Path} (unreserved : path.Unreserved) (node : Node) :
    node.setDescendant path (node.descendant path) = node := by
  induction path generalizing node with
  | nil => rfl
  | cons key rest inductionHypothesis =>
      rw [setDescendant_cons_of_not_priority unreserved.head, descendant,
        inductionHypothesis unreserved.tail]
      exact setChild_of_same unreserved.head (same_refl _)

/-- A replacement at a joined path is one within the descendant at the first part. -/
theorem setDescendant_append
    {upper : Path} (unreserved : upper.Unreserved)
    (node : Node) (lower : Path) (replacement : Node) :
    node.setDescendant (upper ++ lower) replacement =
      node.setDescendant upper
        ((node.descendant upper).setDescendant lower replacement) := by
  induction upper generalizing node with
  | nil => rfl
  | cons key rest inductionHypothesis =>
      rw [List.cons_append,
        setDescendant_cons_of_not_priority unreserved.head,
        setDescendant_cons_of_not_priority unreserved.head,
        inductionHypothesis unreserved.tail]
      rfl

/-- What holds of a replacement in a node at a path, seen from there and from another path. -/
structure Lawful (node replacement : Node) (path other : Path) : Prop where
  /-- The replacement is read back. -/
  readBack :
    ((node.setDescendant path replacement).descendant path).same
      replacement = true
  /-- A descendant that is put back changes nothing. -/
  putBack :
    (node.setDescendant path (node.descendant path)).same node = true
  /-- A replacement does not show at a path that is neither above nor below. -/
  beside :
    path.contains other = false → other.contains path = false →
      ((node.setDescendant path replacement).descendant other).same
        (node.descendant other) = true
  /-- A replacement at a joined path is one within the descendant at the first path. -/
  joined :
    (node.setDescendant (path ++ other) replacement).same
      (node.setDescendant path
        ((node.descendant path).setDescendant other replacement)) = true

private theorem Canonical.lawful
    {node replacement : Node} (canonical : node.Canonical)
    (replacementCanonical : replacement.Canonical) {path other : Path}
    (unreserved : path.Unreserved) (otherUnreserved : other.Unreserved) :
    Lawful node replacement path other where
  readBack := by
    have seen := descendant_setDescendant_above canonical
      replacementCanonical unreserved []
    rwa [List.append_nil] at seen
  putBack := by
    rw [setDescendant_descendant unreserved]
    exact same_refl node
  beside notAbove notBelow :=
    descendant_setDescendant_beside canonical replacementCanonical
      otherUnreserved notAbove notBelow
  joined := by
    rw [setDescendant_append unreserved]
    exact same_refl _

/-- Every node that is built is canonical, and replacements in such nodes are lawful at all paths
without the priority key. -/
theorem built_canonical_and_lawful
    {node : Node} (built : node.Built) :
    node.Canonical ∧
      ∀ replacement : Node, replacement.Built →
        ∀ path other : Path, path.Unreserved → other.Unreserved →
          Lawful node replacement path other :=
  ⟨built.canonical, fun _ replacementBuilt _ _ unreserved otherUnreserved =>
    built.canonical.lawful replacementBuilt.canonical unreserved
      otherUnreserved⟩

/-- A leaf that becomes a branch keeps its priority, and loses it with its last child. -/
theorem built_canonical_and_lawful_leaf_grown :
    Lawful (leaf (.text "old") (some (.text "first")))
        (ofScalar (.bool true)) [⟨"a"⟩, ⟨"b"⟩] [⟨"a"⟩, ⟨"c"⟩] ∧
      (leaf (.text "old") (some (.text "first"))).setDescendant
          [⟨"a"⟩, ⟨"b"⟩] (ofScalar (.bool true)) =
        branch [(⟨"a"⟩, branch [(⟨"b"⟩, ofScalar (.bool true))] none)]
          (some (.text "first")) ∧
      (branch [(⟨"a"⟩, branch [(⟨"b"⟩, ofScalar (.bool true))] none)]
          (some (.text "first"))).setDescendant [⟨"a"⟩, ⟨"b"⟩] empty =
        empty := by
  have unreserved :
      Path.Unreserved [⟨"a"⟩, ⟨"b"⟩] ∧ Path.Unreserved [⟨"a"⟩, ⟨"c"⟩] := by
    unfold Path.Unreserved
    decide
  have built : (leaf (.text "old") (some (.text "first"))).Built :=
    (Built.ofScalar (.text "old")).setPriority (some (.text "first"))
  refine ⟨?_, by rfl, by rfl⟩
  exact (built_canonical_and_lawful built).2 _
    (Built.ofScalar (.bool true)) _ _ unreserved.1 unreserved.2

end Replica.Node
