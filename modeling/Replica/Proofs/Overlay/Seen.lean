import Replica.Overlay
import Replica.Proofs.Node.Update

/-!
# Writes as seen from a location

From a location one sees of a write either the write itself, if it lies at or below the location,
or the part of its node that belongs to the location, if it lies above. Laying writes over a node
and then looking at the location gives the same as laying what is seen of them over the data of
the location.
-/

namespace Replica

namespace Path

/-- Two locations are the same, one is above the other, or neither is. -/
theorem related_cases (path base : Path) :
    (∃ below, path = base ++ below) ∨
      (∃ below, base = path ++ below) ∨
        (contains path base = false ∧ contains base path = false) := by
  by_cases lower : contains base path = true
  · exact Or.inl (contains_iff.mp lower)
  · by_cases upper : contains path base = true
    · exact Or.inr (Or.inl (contains_iff.mp upper))
    · exact Or.inr (Or.inr ⟨by simpa using upper, by simpa using lower⟩)

@[simp]
theorem contains_self (path : Path) : contains path path = true :=
  contains_iff.mpr ⟨[], (List.append_nil path).symm⟩

theorem ne_of_not_contains
    {above path : Path} (outside : contains above path = false) :
    above ≠ path := by
  rintro rfl
  rw [contains_self] at outside
  cases outside

@[simp]
theorem contains_append_append (base upper lower : Path) :
    contains (base ++ upper) (base ++ lower) = contains upper lower := by
  rw [Bool.eq_iff_iff, contains_iff, contains_iff]
  refine exists_congr fun below => ?_
  rw [List.append_assoc, List.append_cancel_left_eq]

theorem contains_of_heads_ne
    {key other : Key} (different : key ≠ other) (rest others : Path) :
    contains (key :: rest) (other :: others) = false := by
  rw [Bool.eq_false_iff]
  intro contained
  obtain ⟨below, equality⟩ := contains_iff.mp contained
  exact different (List.cons.inj equality).1.symm

theorem contains_antisymm
    {left right : Path}
    (forward : contains left right = true)
    (backward : contains right left = true) : left = right := by
  obtain ⟨below, rfl⟩ := contains_iff.mp forward
  obtain ⟨above, equality⟩ := contains_iff.mp backward
  have lengths := congrArg List.length equality
  simp only [List.length_append] at lengths
  have nothing : below = [] := List.eq_nil_of_length_eq_zero (by omega)
  rw [nothing, List.append_nil]

end Path

namespace Overlay

/-- What is seen of a write from a location. -/
def seenFrom (base : Path) (write : Path × Node) : Option (Path × Node) :=
  match Path.below? write.1 base with
  | some below => some (below, write.2)
  | none =>
    (Path.below? base write.1).map fun below => ([], write.2.descendant below)

@[simp]
theorem seenFrom_below (base below : Path) (node : Node) :
    seenFrom base (base ++ below, node) = some (below, node) := by
  unfold seenFrom
  rw [Path.below?_append]

@[simp]
theorem seenFrom_above (path below : Path) (node : Node) :
    seenFrom (path ++ below) (path, node) =
      some ([], node.descendant below) := by
  by_cases here : below = []
  · subst here
    unfold seenFrom
    rw [List.append_nil, Path.below?_self]
    rfl
  · have notBelow : Path.below? path (path ++ below) = none := by
      rw [Path.below?_eq_none_iff, Bool.eq_false_iff]
      intro contained
      have equality :=
        Path.contains_antisymm (Path.contains_append path below) contained
      exact here (List.self_eq_append_right.mp equality)
    unfold seenFrom
    rw [notBelow, Path.below?_append]
    rfl

theorem seenFrom_beside
    {base path : Path} (node : Node)
    (notAbove : Path.contains path base = false)
    (notBelow : Path.contains base path = false) :
    seenFrom base (path, node) = none := by
  unfold seenFrom
  rw [Path.below?_eq_none_iff.mpr notBelow,
    Path.below?_eq_none_iff.mpr notAbove]
  rfl

@[simp]
theorem seenFrom_root (write : Path × Node) :
    seenFrom [] write = some write :=
  seenFrom_below [] write.1 write.2

/-- What is seen from a location can be looked at from further below. -/
theorem seenFrom_append (upper lower : Path) (write : Path × Node) :
    seenFrom (upper ++ lower) write =
      (seenFrom upper write).bind (seenFrom lower) := by
  obtain ⟨path, node⟩ := write
  rcases Path.related_cases path upper with
    ⟨below, rfl⟩ | ⟨below, rfl⟩ | ⟨notAbove, notBelow⟩
  · rw [seenFrom_below, Option.bind_some]
    rcases Path.related_cases below lower with
      ⟨deeper, rfl⟩ | ⟨deeper, rfl⟩ | ⟨notAbove, notBelow⟩
    · rw [seenFrom_below, ← List.append_assoc, seenFrom_below]
    · rw [seenFrom_above, ← List.append_assoc, seenFrom_above]
    · rw [seenFrom_beside node notAbove notBelow]
      refine seenFrom_beside node ?_ ?_
      · rw [Path.contains_append_append, notAbove]
      · rw [Path.contains_append_append, notBelow]
  · rw [seenFrom_above, Option.bind_some, List.append_assoc,
      seenFrom_above, Node.descendant_append]
    exact (seenFrom_above [] lower (node.descendant below)).symm
  · rw [seenFrom_beside node notAbove notBelow]
    refine seenFrom_beside node ?_ ?_
    · rw [Bool.eq_false_iff]
      intro contained
      rcases Path.contains_or_contains contained
          (Path.contains_append upper lower) with above | below
      · rw [notAbove] at above
        cases above
      · rw [notBelow] at below
        cases below
    · rw [Bool.eq_false_iff]
      intro contained
      have upperContains :=
        Path.contains_trans (Path.contains_append upper lower) contained
      rw [notBelow] at upperContains
      cases upperContains

theorem filterMap_seenFrom_append
    (upper lower : Path) (writes : List (Path × Node)) :
    writes.filterMap (seenFrom (upper ++ lower)) =
      (writes.filterMap (seenFrom upper)).filterMap (seenFrom lower) := by
  rw [List.filterMap_filterMap]
  exact List.filterMap_congr fun write _ =>
    seenFrom_append upper lower write

/-- The node of a write that is seen is canonical if the node of the write is. -/
theorem canonical_of_seenFrom
    {base : Path} {write seen : Path × Node}
    (canonical : write.2.Canonical)
    (isSeen : seenFrom base write = some seen) :
    seen.2.Canonical := by
  obtain ⟨path, node⟩ := write
  rcases Path.related_cases path base with
    ⟨below, rfl⟩ | ⟨below, rfl⟩ | ⟨notAbove, notBelow⟩
  · rw [seenFrom_below] at isSeen
    cases isSeen
    exact canonical
  · rw [seenFrom_above] at isSeen
    cases isSeen
    exact Node.Canonical.descendant canonical below
  · rw [seenFrom_beside node notAbove notBelow] at isSeen
    cases isSeen

/-- What is seen of a write lies at the location, or it is the write itself. -/
theorem seenFrom_cases
    {base : Path} {write seen : Path × Node}
    (isSeen : seenFrom base write = some seen) :
    (seen.1 = [] ∧ Path.contains write.1 base = true) ∨
      write = (base ++ seen.1, seen.2) := by
  obtain ⟨path, node⟩ := write
  rcases Path.related_cases path base with
    ⟨below, rfl⟩ | ⟨below, rfl⟩ | ⟨notAbove, notBelow⟩
  · rw [seenFrom_below] at isSeen
    cases isSeen
    exact Or.inr rfl
  · rw [seenFrom_above] at isSeen
    cases isSeen
    exact Or.inl ⟨rfl, Path.contains_append path below⟩
  · rw [seenFrom_beside node notAbove notBelow] at isSeen
    cases isSeen

theorem writable_of_seenFrom
    {base : Path} {write seen : Path × Node}
    (writable : write.1.Writable)
    (isSeen : seenFrom base write = some seen) : seen.1.Writable := by
  rcases seenFrom_cases isSeen with ⟨atRoot, _⟩ | rfl
  · rw [atRoot]
    exact fun _ member => absurd member List.not_mem_nil
  · exact writable.lower

theorem isPriorityPath_of_unreserved
    {path : Path} (unreserved : path.Unreserved) :
    isPriorityPath path = false := by
  unfold isPriorityPath
  cases last : path.getLast? with
  | none => rfl
  | some key => exact unreserved key (List.mem_of_getLast? last)

/-- A write that may end at the priority key is seen to end there, or not to. -/
theorem isPriorityPath_of_seenFrom
    {base : Path} (unreserved : base.Unreserved)
    {write seen : Path × Node}
    (isSeen : seenFrom base write = some seen) :
    isPriorityPath seen.1 = isPriorityPath write.1 := by
  obtain ⟨path, node⟩ := write
  rcases Path.related_cases path base with
    ⟨below, rfl⟩ | ⟨below, rfl⟩ | ⟨notAbove, notBelow⟩
  · rw [seenFrom_below] at isSeen
    cases isSeen
    cases below with
    | nil =>
        rw [List.append_nil, isPriorityPath_of_unreserved unreserved]
        rfl
    | cons key rest =>
        unfold isPriorityPath
        rw [List.getLast?_append_of_ne_nil base (List.cons_ne_nil key rest)]
  · rw [seenFrom_above] at isSeen
    cases isSeen
    rw [isPriorityPath_of_unreserved
      (Path.unreserved_append_iff.mp unreserved).1]
    rfl
  · rw [seenFrom_beside node notAbove notBelow] at isSeen
    cases isSeen

end Overlay

namespace Node

/-! ## Laying writes over a node -/

/-- The node after writes at locations below it, made in the given order. -/
def lay (node : Node) (writes : List (Path × Node)) : Node :=
  writes.foldl (fun tree write => tree.setDescendant write.1 write.2) node

@[simp]
theorem lay_nil (node : Node) : node.lay [] = node :=
  rfl

@[simp]
theorem lay_cons (node : Node) (write : Path × Node)
    (writes : List (Path × Node)) :
    node.lay (write :: writes) =
      (node.setDescendant write.1 write.2).lay writes :=
  rfl

@[simp]
theorem lay_append (node : Node) (first second : List (Path × Node)) :
    node.lay (first ++ second) = (node.lay first).lay second :=
  List.foldl_append

theorem Canonical.lay
    {node : Node} (canonical : Canonical node)
    {writes : List (Path × Node)}
    (writesCanonical : ∀ write ∈ writes, write.2.Canonical) :
    Canonical (node.lay writes) := by
  induction writes generalizing node with
  | nil => exact canonical
  | cons write rest inductionHypothesis =>
      obtain ⟨first, others⟩ := List.forall_mem_cons.mp writesCanonical
      exact inductionHypothesis (canonical.setDescendant first write.1)
        others

theorem lay_congr
    {left right : Node} (equal : left ≈ right)
    (leftCanonical : left.Canonical) (rightCanonical : right.Canonical)
    {writes others : List (Path × Node)}
    (related : List.Forall₂ (fun a b => a.1 = b.1 ∧ a.2 ≈ b.2)
      writes others)
    (writesCanonical : ∀ write ∈ writes, write.2.Canonical)
    (othersCanonical : ∀ write ∈ others, write.2.Canonical) :
    left.lay writes ≈ right.lay others := by
  induction related generalizing left right with
  | nil => exact equal
  | @cons write other rest otherRest head _ inductionHypothesis =>
      obtain ⟨first, restCanonical⟩ :=
        List.forall_mem_cons.mp writesCanonical
      obtain ⟨second, otherRestCanonical⟩ :=
        List.forall_mem_cons.mp othersCanonical
      obtain ⟨samePath, sameNode⟩ := head
      rw [lay_cons, lay_cons, ← samePath]
      exact inductionHypothesis
        (setDescendant_congr equal sameNode leftCanonical rightCanonical
          first second write.1)
        (leftCanonical.setDescendant first _)
        (rightCanonical.setDescendant second _)
        restCanonical otherRestCanonical

theorem lay_congr_left
    {left right : Node} (equal : left ≈ right)
    (leftCanonical : left.Canonical) (rightCanonical : right.Canonical)
    {writes : List (Path × Node)}
    (writesCanonical : ∀ write ∈ writes, write.2.Canonical) :
    left.lay writes ≈ right.lay writes :=
  lay_congr equal leftCanonical rightCanonical
    (List.forall₂_same.mpr fun _ _ => ⟨rfl, Setoid.refl _⟩)
    writesCanonical writesCanonical

/-- One write, as it shows at a location. -/
theorem descendant_setDescendant
    {node : Node} (canonical : node.Canonical)
    {base : Path} (unreserved : base.Unreserved)
    {write : Path × Node} (writeCanonical : write.2.Canonical) :
    (node.setDescendant write.1 write.2).descendant base ≈
      (node.descendant base).lay
        (Overlay.seenFrom base write).toList := by
  obtain ⟨path, replacement⟩ := write
  rcases Path.related_cases path base with
    ⟨below, rfl⟩ | ⟨below, rfl⟩ | ⟨notAbove, notBelow⟩
  · rw [Overlay.seenFrom_below]
    exact descendant_setDescendant_below canonical writeCanonical
      unreserved below
  · rw [Overlay.seenFrom_above]
    exact descendant_setDescendant_above canonical writeCanonical
      (Path.unreserved_append_iff.mp unreserved).1 below
  · rw [Overlay.seenFrom_beside replacement notAbove notBelow]
    exact descendant_setDescendant_beside canonical writeCanonical
      unreserved notAbove notBelow

/-- Laying writes over a node commutes with looking at a location. -/
theorem descendant_lay
    {node : Node} (canonical : node.Canonical)
    {base : Path} (unreserved : base.Unreserved)
    {writes : List (Path × Node)}
    (writesCanonical : ∀ write ∈ writes, write.2.Canonical) :
    (node.lay writes).descendant base ≈
      (node.descendant base).lay
        (writes.filterMap (Overlay.seenFrom base)) := by
  induction writes generalizing node with
  | nil => exact Setoid.refl _
  | cons write rest inductionHypothesis =>
      obtain ⟨first, restCanonical⟩ :=
        List.forall_mem_cons.mp writesCanonical
      have written := canonical.setDescendant first write.1
      have seenCanonical :
          ∀ seen ∈ rest.filterMap (Overlay.seenFrom base),
            seen.2.Canonical := by
        intro seen member
        obtain ⟨other, otherMember, isSeen⟩ :=
          List.mem_filterMap.mp member
        exact Overlay.canonical_of_seenFrom
          (restCanonical other otherMember) isSeen
      have split :
          (write :: rest).filterMap (Overlay.seenFrom base) =
            (Overlay.seenFrom base write).toList ++
              rest.filterMap (Overlay.seenFrom base) := by
        rw [List.filterMap_cons]
        cases Overlay.seenFrom base write with
        | none => rfl
        | some _ => rfl
      rw [lay_cons, split, lay_append]
      refine Setoid.trans (inductionHypothesis written restCanonical) ?_
      refine lay_congr_left
        (descendant_setDescendant canonical unreserved first)
        (written.descendant base) ?_ seenCanonical
      refine (canonical.descendant base).lay fun seen member => ?_
      rw [Option.mem_toList] at member
      exact Overlay.canonical_of_seenFrom first member

end Node

end Replica
