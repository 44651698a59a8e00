import Replica.Proofs.Pending.Below

/-!
# Overlays that are read back

A write is folded into one above it, replaces those below it or stands alone. What the overlay
determines afterwards only depends on how a location lies to the written one: at the written
location and below it shows the written node, above it what was determined before with the
written node put in place, and elsewhere nothing changes.
-/

namespace Replica.Overlay

/-- What an overlay determines at a location, by the writes it had and one further write. -/
def readBack (overlay : Overlay) (written : Path) (node : Node)
    (path : Path) : Option Node :=
  match Path.below? path written, Path.below? written path with
  | some below, _ => some (node.descendant below)
  | none, some below =>
    (overlay.node? path).map fun held => held.setDescendant below node
  | none, none => overlay.node? path

section

variable {overlay : Overlay} {node : Node}

private theorem readBack_self (path : Path) :
    overlay.readBack path node path = some node := by
  unfold readBack
  rw [Path.below?_self]
  rfl

private theorem readBack_below (written below : Path) :
    overlay.readBack written node (written ++ below) =
      some (node.descendant below) := by
  unfold readBack
  rw [Path.below?_append]

private theorem readBack_above {path below : Path} (proper : below ≠ []) :
    overlay.readBack (path ++ below) node path =
      (overlay.node? path).map
        fun held => held.setDescendant below node := by
  have notBelow : Path.below? path (path ++ below) = none := by
    rw [Path.below?_eq_none_iff, Bool.eq_false_iff]
    intro contained
    exact proper (List.self_eq_append_right.mp
      (Path.contains_antisymm (Path.contains_append path below) contained))
  unfold readBack
  rw [notBelow, Path.below?_append]

private theorem readBack_beside
    {written path : Path} (notAbove : Path.contains written path = false)
    (notBelow : Path.contains path written = false) :
    overlay.readBack written node path = overlay.node? path := by
  unfold readBack
  rw [Path.below?_eq_none_iff.mpr notAbove,
    Path.below?_eq_none_iff.mpr notBelow]

/-- Seen from the location, the write goes to the root or below it, or does not show. -/
theorem node?_add
    (valid : overlay.Valid) (written : Path) (canonical : node.Canonical)
    {path : Path} (unreserved : path.Unreserved) :
    Option.Rel (· ≈ ·) ((overlay.add written node).node? path)
      (overlay.readBack written node path) := by
  have restricted := valid.restrict path
  have plain := plain_of_unreserved unreserved overlay
  have relative :
      (overlay.add written node).restrict path ≈
        (overlay.restrict path).adds
          (seenFrom path (written, node)).toList :=
    @restrict_add overlay valid path plain (written, node) canonical
  have seen := root?_congr relative
  rw [root?_restrict (valid.add canonical written)] at seen
  rcases Path.related_cases written path with
    ⟨below, rfl⟩ | ⟨below, rfl⟩ | ⟨notAbove, notBelow⟩
  · rw [seenFrom_below, Option.toList_some, adds_cons, adds_nil] at seen
    by_cases here : below = []
    · subst here
      rw [root?_add_root restricted] at seen
      rw [List.append_nil] at seen ⊢
      rw [readBack_self]
      exact seen
    · rw [root?_add_of_proper restricted here, root?_restrict valid] at seen
      rw [readBack_above here]
      exact seen
  · rw [seenFrom_above, Option.toList_some, adds_cons, adds_nil,
      root?_add_root restricted] at seen
    rw [readBack_below]
    exact seen
  · rw [seenFrom_beside node notAbove notBelow, Option.toList_none,
      adds_nil, root?_restrict valid] at seen
    rw [readBack_beside notAbove notBelow]
    exact seen

end

@[simp]
private theorem determines_ofWrites
    {writes : List (Path × Node)}
    (canonical : ∀ write ∈ writes, write.2.Canonical) (path : Path) :
    (ofWrites writes).determines path =
      writes.any fun write => Path.contains write.1 path := by
  rw [determines_eq_isSome_node?]
  exact isSome_node?_adds Valid.empty canonical path

/-- No write of an overlay lies above another one, and an overlay is read back as it was written:
a location shows what the writes at it, above it and below it have put there, and is determined
once something has been written at it or above it. -/
theorem written_reads_back
    {overlay : Overlay} (built : overlay.Built)
    (written : Path) {node : Node} (canonical : node.Canonical)
    {path : Path} (unreserved : path.Unreserved)
    {writes : List (Path × Node)}
    (writesCanonical : ∀ write ∈ writes, write.2.Canonical)
    (asked : Path) :
    (∀ upper ∈ overlay.writes, ∀ lower ∈ overlay.writes,
        Path.contains upper.1 lower.1 = true → upper = lower) ∧
      Option.Rel (fun found expected => found.same expected = true)
        ((overlay.add written node).node? path)
        (overlay.readBack written node path) ∧
      ((ofWrites writes).determines asked = true ↔
        ∃ write ∈ writes, Path.contains write.1 asked = true) := by
  refine ⟨?_, node?_add built.valid written canonical unreserved, ?_⟩
  · intro upper upperMember lower lowerMember
    exact built.valid.eq_of_contains upperMember lowerMember
  · rw [determines_ofWrites writesCanonical, List.any_eq_true]

/-- A leaf with a priority beside a deletion. -/
def leafAndDeletion : List (Path × Node) :=
  [([⟨"r"⟩, ⟨"a"⟩], .leaf (.bool false) (some (.text "q"))),
    ([⟨"r"⟩, ⟨"b"⟩], .empty)]

theorem written_reads_back_over_leaf :
    let overlay := (ofWrites leafAndDeletion).restrict [⟨"r"⟩]
    let node := Node.ofScalar (.text "t")
    let written : Path := [⟨"a"⟩, ⟨"x"⟩, ⟨"y"⟩]
    (overlay.readBack written node [⟨"a"⟩]).any (·.same
        (.branch [(⟨"x"⟩, .branch [(⟨"y"⟩, node)] none)]
          (some (.text "q")))) = true ∧
      (∀ upper ∈ overlay.writes, ∀ lower ∈ overlay.writes,
          Path.contains upper.1 lower.1 = true → upper = lower) ∧
        Option.Rel (fun found expected => found.same expected = true)
          ((overlay.add written node).node? [⟨"a"⟩])
          (overlay.readBack written node [⟨"a"⟩]) ∧
        ((ofWrites leafAndDeletion).determines
            [⟨"r"⟩, ⟨"b"⟩, ⟨"c"⟩] = true ↔
          ∃ write ∈ leafAndDeletion,
            Path.contains write.1 [⟨"r"⟩, ⟨"b"⟩, ⟨"c"⟩] = true) := by
  intro overlay node written
  have canonical : ∀ write ∈ leafAndDeletion, write.2.Canonical := by
    simp [leafAndDeletion, Node.Canonical.leaf, Node.Canonical.empty]
  have built : overlay.Built := .restrict (.ofWrites canonical) _
  exact ⟨by decide, written_reads_back built written
    (Node.Canonical.ofScalar _) (Path.unreserved_singleton rfl) canonical
    _⟩

end Replica.Overlay
