import Replica.Node.Document
import Replica.Proofs.Node.Canonical

/-!
# Nodes that are read

Whatever document a node is read from, the node is canonical: empty children are left out, and so
is a priority without data.
-/

namespace Replica

/-- Two steps one after the other succeed only if both of them do. -/
theorem bind_eq_ok
    {ε α β : Type} {first : Except ε α} {next : α → Except ε β}
    {result : β} (done : (first >>= next) = .ok result) :
    ∃ value, first = .ok value ∧ next value = .ok result := by
  cases first with
  | error failure => cases done
  | ok value => exact ⟨value, rfl, done⟩

namespace Node

/-- What a leaf document can be read as. -/
theorem eq_of_leafOf
    {members : List (String × Json)} {inner : Json}
    {priority : Option Priority} {node : Node}
    (read : leafOf members inner priority = .ok node) :
    (∃ scalar, node = (ofScalar scalar).setPriority priority) ∨
      node = empty.setPriority priority := by
  unfold leafOf at read
  dsimp only at read
  split at read
  · cases read
  · obtain ⟨scalar, _, read⟩ := bind_eq_ok read
    split at read
    · cases read
      exact Or.inl ⟨_, rfl⟩
    · cases read
      exact Or.inr rfl
    · cases read

/-- What a document without members and items can be read as. -/
theorem eq_of_scalarOf
    {document : Json} {node : Node}
    (read : (do
      match ← scalarOf document with
      | some scalar => return ofScalar scalar
      | none => return empty) = Except.ok node) :
    (∃ scalar, node = ofScalar scalar) ∨ node = empty := by
  obtain ⟨scalar, _, read⟩ := bind_eq_ok read
  cases scalar with
  | some scalar =>
      cases read
      exact Or.inl ⟨scalar, rfl⟩
  | none =>
      cases read
      exact Or.inr rfl

theorem canonical_of_leafOf
    {members : List (String × Json)} {inner : Json}
    {priority : Option Priority} {node : Node}
    (read : leafOf members inner priority = .ok node) :
    node.Canonical := by
  rcases eq_of_leafOf read with ⟨scalar, rfl⟩ | rfl
  · exact (Canonical.ofScalar scalar).setPriority priority
  · exact Canonical.empty.setPriority priority

theorem canonical_of_scalarOf
    {document : Json} {node : Node}
    (read : (do
      match ← scalarOf document with
      | some scalar => return ofScalar scalar
      | none => return empty) = Except.ok node) : node.Canonical := by
  rcases eq_of_scalarOf read with ⟨scalar, rfl⟩ | rfl
  · exact Canonical.ofScalar scalar
  · exact Canonical.empty

mutual

/-- A node that is read is canonical. -/
theorem canonical_of_ofJson :
    ∀ {document : Json} {node : Node},
      ofJson document = .ok node → node.Canonical
  | .null, node, read => by
      rw [ofJson] at read
      cases read
      exact Canonical.empty
  | .array items, node, read => by
      rw [ofJson] at read
      obtain ⟨children, itemsRead, read⟩ := bind_eq_ok read
      cases read
      exact Canonical.ofChildren (canonical_of_itemsOf itemsRead)
  | .object members, node, read => by
      rw [ofJson] at read
      obtain ⟨priority, _, read⟩ := bind_eq_ok read
      split at read
      · exact canonical_of_leafOf read
      · obtain ⟨children, membersRead, read⟩ := bind_eq_ok read
        cases read
        exact (Canonical.ofChildren
          (canonical_of_membersOf membersRead)).setPriority priority
  | .bool value, node, read => by
      unfold ofJson at read
      exact canonical_of_scalarOf read
  | .integer value, node, read => by
      unfold ofJson at read
      exact canonical_of_scalarOf read
  | .decimal value, node, read => by
      unfold ofJson at read
      exact canonical_of_scalarOf read
  | .string text, node, read => by
      unfold ofJson at read
      exact canonical_of_scalarOf read

theorem canonical_of_itemsOf :
    ∀ {items : List Json} {position : Nat} {children : List (Key × Node)},
      itemsOf position items = .ok children →
        ∀ entry ∈ children, entry.2.Canonical
  | [], position, children, read => by
      rw [itemsOf] at read
      cases read
      exact fun _ member => absurd member List.not_mem_nil
  | item :: rest, position, children, read => by
      rw [itemsOf] at read
      obtain ⟨node, nodeRead, read⟩ := bind_eq_ok read
      obtain ⟨others, othersRead, read⟩ := bind_eq_ok read
      cases read
      exact List.forall_mem_cons.mpr
        ⟨canonical_of_ofJson nodeRead, canonical_of_itemsOf othersRead⟩

theorem canonical_of_membersOf :
    ∀ {members : List (String × Json)} {children : List (Key × Node)},
      membersOf members = .ok children →
        ∀ entry ∈ children, entry.2.Canonical
  | [], children, read => by
      rw [membersOf] at read
      cases read
      exact fun _ member => absurd member List.not_mem_nil
  | (name, value) :: rest, children, read => by
      rw [membersOf] at read
      split at read
      · exact canonical_of_membersOf read
      · obtain ⟨key, _, read⟩ := bind_eq_ok read
        obtain ⟨node, nodeRead, read⟩ := bind_eq_ok read
        obtain ⟨others, othersRead, read⟩ := bind_eq_ok read
        cases read
        exact List.forall_mem_cons.mpr
          ⟨canonical_of_ofJson nodeRead, canonical_of_membersOf othersRead⟩

end

end Node

end Replica
