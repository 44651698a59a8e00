import Replica.Proofs.Overlay.Seen

/-!
# Valid overlays

The writes of an overlay are in path order, and no write lies above another one, so at most one
write covers a location. Adding a write keeps it so.
-/

namespace Replica.Overlay

/-- The writes are in path order, none is above another one, and their nodes are canonical. -/
structure Valid (overlay : Overlay) : Prop where
  ascending : Sorted.Ascending overlay.writes
  apart : ∀ upper ∈ overlay.writes, ∀ lower ∈ overlay.writes,
    Path.contains upper.1 lower.1 = true → upper.1 = lower.1
  canonical : ∀ write ∈ overlay.writes, write.2.Canonical

/-! ## The covering write -/

private theorem covering?_eq_find? (overlay : Overlay) (path : Path) :
    overlay.covering? path =
      overlay.writes.find? fun write => Path.contains write.1 path :=
  rfl

theorem Valid.eq_of_contains
    {overlay : Overlay} (valid : overlay.Valid)
    {upper lower : Path × Node}
    (upperMember : upper ∈ overlay.writes)
    (lowerMember : lower ∈ overlay.writes)
    (contained : Path.contains upper.1 lower.1 = true) :
    upper = lower := by
  have samePath := valid.apart upper upperMember lower lowerMember contained
  have first := Sorted.find?_of_mem valid.ascending upperMember
  have second := Sorted.find?_of_mem valid.ascending lowerMember
  rw [samePath, second] at first
  exact Prod.ext samePath (Option.some.inj first).symm

/-- At most one write covers a location. -/
theorem covering?_eq_some_iff
    {overlay : Overlay} (valid : overlay.Valid)
    {path : Path} {write : Path × Node} :
    overlay.covering? path = some write ↔
      write ∈ overlay.writes ∧ Path.contains write.1 path = true := by
  constructor
  · intro found
    rw [covering?_eq_find?] at found
    have above := List.find?_some found
    exact ⟨List.mem_of_find?_eq_some found, above⟩
  · rintro ⟨member, above⟩
    cases found : overlay.covering? path with
    | none =>
        have notAbove := List.find?_eq_none.mp found write member
        exact absurd above notAbove
    | some other =>
        rw [covering?_eq_find?] at found
        have otherMember := List.mem_of_find?_eq_some found
        have otherAbove := List.find?_some found
        rcases Path.contains_or_contains otherAbove above with
          contained | contained
        · rw [valid.eq_of_contains otherMember member contained]
        · rw [valid.eq_of_contains member otherMember contained]

theorem covering?_eq_none_iff {overlay : Overlay} {path : Path} :
    overlay.covering? path = none ↔
      ∀ write ∈ overlay.writes, Path.contains write.1 path = false := by
  unfold covering?
  rw [List.find?_eq_none]
  refine forall_congr' fun write => forall_congr' fun _ => ?_
  rw [Bool.not_eq_true]

/-- A covering write lies at or above the location, and is stored at its own. -/
theorem covering?_cases
    {overlay : Overlay} (valid : overlay.Valid) (path : Path) :
    (∃ above below node, path = above ++ below ∧
        Sorted.find? above overlay.writes = some node ∧
        overlay.covering? path = some (above, node)) ∨
      overlay.covering? path = none := by
  cases found : overlay.covering? path with
  | none => exact Or.inr rfl
  | some write =>
      obtain ⟨member, contained⟩ :=
        (covering?_eq_some_iff valid).mp found
      obtain ⟨below, rfl⟩ := Path.contains_iff.mp contained
      exact Or.inl ⟨write.1, below, write.2, rfl,
        Sorted.find?_of_mem valid.ascending member, rfl⟩

theorem covering?_of_find?
    {overlay : Overlay} (valid : overlay.Valid)
    {above : Path} {node : Node}
    (stored : Sorted.find? above overlay.writes = some node)
    (below : Path) :
    overlay.covering? (above ++ below) = some (above, node) :=
  (covering?_eq_some_iff valid).mpr
    ⟨Sorted.mem_of_find?_eq_some stored, Path.contains_append above below⟩

/-- Nothing is stored below a location that is covered from above. -/
theorem find?_of_covered
    {overlay : Overlay} (valid : overlay.Valid)
    {above below : Path} {node : Node}
    (stored : Sorted.find? above overlay.writes = some node)
    (proper : below ≠ []) :
    Sorted.find? (above ++ below) overlay.writes = none := by
  rw [Option.eq_none_iff_forall_ne_some]
  intro other found
  have equality :=
    valid.apart _ (Sorted.mem_of_find?_eq_some stored) _
      (Sorted.mem_of_find?_eq_some found)
      (Path.contains_append above below)
  exact proper (List.self_eq_append_right.mp equality)

theorem node?_of_find?
    {overlay : Overlay} (valid : overlay.Valid)
    {above : Path} {node : Node}
    (stored : Sorted.find? above overlay.writes = some node)
    (below : Path) :
    overlay.node? (above ++ below) = some (node.descendant below) := by
  unfold node?
  rw [covering?_of_find? valid stored below, Option.map_some]
  dsimp only
  rw [Path.below?_append]
  rfl

theorem determines_eq_isSome_node? (overlay : Overlay) (path : Path) :
    overlay.determines path = (overlay.node? path).isSome := by
  unfold determines node?
  rw [Option.isSome_map]

theorem node?_eq_none_iff {overlay : Overlay} {path : Path} :
    overlay.node? path = none ↔ overlay.covering? path = none := by
  unfold node?
  rw [Option.map_eq_none_iff]

/-! ## Building overlays -/

@[simp]
theorem Valid.empty : Valid empty where
  ascending := List.Pairwise.nil
  apart := fun _ member => absurd member List.not_mem_nil
  canonical := fun _ member => absurd member List.not_mem_nil

@[simp]
theorem writes_ofNode (node : Node) :
    (ofNode node).writes = [([], node)] :=
  rfl

theorem Valid.ofNode
    {node : Node} (canonical : node.Canonical) : Valid (ofNode node) where
  ascending := List.pairwise_singleton _ _
  apart := by
    intro upper upperMember lower lowerMember _
    rw [writes_ofNode, List.mem_singleton] at upperMember lowerMember
    rw [upperMember, lowerMember]
  canonical := by
    intro write member
    rw [writes_ofNode, List.mem_singleton] at member
    rw [member]
    exact canonical

theorem writes_add_of_covered
    {overlay : Overlay} {above below : Path} {existing : Node}
    (covered : overlay.covering? (above ++ below) = some (above, existing))
    (node : Node) :
    (overlay.add (above ++ below) node).writes =
      Sorted.insert above (existing.setDescendant below node)
        overlay.writes := by
  unfold add
  rw [covered]
  dsimp only
  rw [Path.below?_append]
  rfl

theorem writes_add_of_open
    {overlay : Overlay} {path : Path}
    (uncovered : overlay.covering? path = none) (node : Node) :
    (overlay.add path node).writes =
      Sorted.insert path node
        (overlay.writes.filter fun write =>
          !Path.contains path write.1) := by
  unfold add
  rw [uncovered]

theorem find?_add_of_covered
    {overlay : Overlay} {above below : Path} {existing : Node}
    (covered : overlay.covering? (above ++ below) = some (above, existing))
    (node : Node) (path : Path) :
    Sorted.find? path (overlay.add (above ++ below) node).writes =
      if path = above then some (existing.setDescendant below node)
      else Sorted.find? path overlay.writes := by
  rw [writes_add_of_covered covered]
  by_cases here : path = above
  · rw [if_pos here, here, Sorted.find?_insert_self]
  · rw [if_neg here, Sorted.find?_insert_of_ne _ here]

theorem find?_add_of_open
    {overlay : Overlay} (valid : overlay.Valid) {written : Path}
    (uncovered : overlay.covering? written = none)
    (node : Node) (path : Path) :
    Sorted.find? path (overlay.add written node).writes =
      if path = written then some node
      else if Path.contains written path then none
      else Sorted.find? path overlay.writes := by
  rw [writes_add_of_open uncovered]
  by_cases here : path = written
  · rw [if_pos here, here, Sorted.find?_insert_self]
  · rw [if_neg here, Sorted.find?_insert_of_ne _ here,
      Sorted.find?_filter _ valid.ascending]
    cases Sorted.find? path overlay.writes with
    | none => simp
    | some stored =>
        cases contained : Path.contains written path with
        | true => simp [contained]
        | false => simp [contained]

theorem Valid.add
    {overlay : Overlay} (valid : overlay.Valid)
    {node : Node} (canonical : node.Canonical) (path : Path) :
    Valid (overlay.add path node) := by
  rcases covering?_cases valid path with
    ⟨above, below, existing, rfl, stored, covered⟩ | uncovered
  · have storedMember := Sorted.mem_of_find?_eq_some stored
    have origin :
        ∀ write ∈ (overlay.add (above ++ below) node).writes,
          ∃ old ∈ overlay.writes, write.1 = old.1 := by
      intro write member
      rw [writes_add_of_covered covered] at member
      rcases Sorted.mem_of_mem_insert member with rfl | old
      · exact ⟨_, storedMember, rfl⟩
      · exact ⟨write, old, rfl⟩
    refine ⟨?_, ?_, ?_⟩
    · rw [writes_add_of_covered covered]
      exact Sorted.ascending_insert _ valid.ascending
    · intro upper upperMember lower lowerMember contained
      obtain ⟨oldUpper, oldUpperMember, upperPath⟩ :=
        origin upper upperMember
      obtain ⟨oldLower, oldLowerMember, lowerPath⟩ :=
        origin lower lowerMember
      rw [upperPath, lowerPath] at contained ⊢
      exact valid.apart _ oldUpperMember _ oldLowerMember contained
    · intro write member
      rw [writes_add_of_covered covered] at member
      rcases Sorted.mem_of_mem_insert member with rfl | old
      · exact (valid.canonical _ storedMember).setDescendant canonical
          below
      · exact valid.canonical write old
  · have origin :
        ∀ write ∈ (overlay.add path node).writes,
          write = (path, node) ∨
            write ∈ overlay.writes ∧
              Path.contains path write.1 = false := by
      intro write member
      rw [writes_add_of_open uncovered] at member
      refine (Sorted.mem_of_mem_insert member).imp_right fun kept => ?_
      obtain ⟨old, outside⟩ := List.mem_filter.mp kept
      exact ⟨old, by simpa using outside⟩
    have notAbove := covering?_eq_none_iff.mp uncovered
    refine ⟨?_, ?_, ?_⟩
    · rw [writes_add_of_open uncovered]
      exact Sorted.ascending_insert _
        (Sorted.ascending_filter _ valid.ascending)
    · intro upper upperMember lower lowerMember contained
      rcases origin upper upperMember with rfl | ⟨oldUpper, _⟩
      · rcases origin lower lowerMember with rfl | ⟨_, outside⟩
        · rfl
        · rw [outside] at contained
          cases contained
      · rcases origin lower lowerMember with rfl | ⟨oldLower, _⟩
        · rw [notAbove upper oldUpper] at contained
          cases contained
        · exact valid.apart _ oldUpper _ oldLower contained
    · intro write member
      rcases origin write member with rfl | ⟨old, _⟩
      · exact canonical
      · exact valid.canonical write old

/-- The overlay after further writes, made in the given order. -/
def adds (overlay : Overlay) (writes : List (Path × Node)) : Overlay :=
  writes.foldl (fun all write => all.add write.1 write.2) overlay

@[simp]
theorem adds_nil (overlay : Overlay) : overlay.adds [] = overlay :=
  rfl

@[simp]
theorem adds_cons
    (overlay : Overlay) (write : Path × Node)
    (writes : List (Path × Node)) :
    overlay.adds (write :: writes) =
      (overlay.add write.1 write.2).adds writes :=
  rfl

@[simp]
theorem adds_append
    (overlay : Overlay) (first second : List (Path × Node)) :
    overlay.adds (first ++ second) = (overlay.adds first).adds second :=
  List.foldl_append

theorem Valid.adds
    {overlay : Overlay} (valid : overlay.Valid)
    {writes : List (Path × Node)}
    (canonical : ∀ write ∈ writes, write.2.Canonical) :
    Valid (overlay.adds writes) := by
  induction writes generalizing overlay with
  | nil => exact valid
  | cons write rest inductionHypothesis =>
      obtain ⟨first, others⟩ := List.forall_mem_cons.mp canonical
      exact inductionHypothesis (valid.add first write.1) others

/-- The overlay of writes of canonical nodes is valid. -/
theorem Valid.ofWrites
    {writes : List (Path × Node)}
    (canonical : ∀ write ∈ writes, write.2.Canonical) :
    Valid (ofWrites writes) :=
  Valid.empty.adds canonical

/-! ## Covered locations -/

theorem isSome_node?_iff {overlay : Overlay} {path : Path} :
    (overlay.node? path).isSome = true ↔
      ∃ write ∈ overlay.writes, Path.contains write.1 path = true := by
  unfold node?
  rw [Option.isSome_map, covering?_eq_find?, List.find?_isSome]

/-- A new write covers what lies at or below it, and uncovers nothing. -/
@[simp]
theorem isSome_node?_add
    {overlay : Overlay} (valid : overlay.Valid) (written : Path)
    (node : Node) (path : Path) :
    ((overlay.add written node).node? path).isSome =
      ((overlay.node? path).isSome || Path.contains written path) := by
  rw [Bool.eq_iff_iff, Bool.or_eq_true, isSome_node?_iff,
    isSome_node?_iff]
  rcases covering?_cases valid written with
    ⟨above, below, existing, rfl, stored, covered⟩ | uncovered
  · rw [writes_add_of_covered covered]
    constructor
    · rintro ⟨write, member, contained⟩
      rcases Sorted.mem_of_mem_insert member with rfl | old
      · exact Or.inl ⟨_, Sorted.mem_of_find?_eq_some stored, contained⟩
      · exact Or.inl ⟨write, old, contained⟩
    · intro isCovered
      have inserted (entry : Path × Node)
          (member : entry ∈ overlay.writes)
          (contained : Path.contains entry.1 path = true) :
          ∃ write ∈ Sorted.insert above (existing.setDescendant below node)
            overlay.writes, Path.contains write.1 path = true := by
        by_cases here : entry.1 = above
        · exact ⟨(above, _), Sorted.mem_of_find?_eq_some
            (Sorted.find?_insert_self above _ _), here ▸ contained⟩
        · refine ⟨entry, Sorted.mem_of_find?_eq_some ?_, contained⟩
          rw [Sorted.find?_insert_of_ne _ here]
          exact Sorted.find?_of_mem valid.ascending member
      rcases isCovered with ⟨entry, member, contained⟩ | contained
      · exact inserted entry member contained
      · exact inserted _ (Sorted.mem_of_find?_eq_some stored)
          (Path.contains_trans (Path.contains_append above below)
            contained)
  · rw [writes_add_of_open uncovered]
    constructor
    · rintro ⟨write, member, contained⟩
      rcases Sorted.mem_of_mem_insert member with rfl | old
      · exact Or.inr contained
      · exact Or.inl ⟨write, (List.mem_filter.mp old).1, contained⟩
    · intro isCovered
      have placed : ∃ write ∈ Sorted.insert written node
          (overlay.writes.filter fun write =>
            !Path.contains written write.1), write.1 = written :=
        ⟨(written, node), Sorted.mem_of_find?_eq_some
          (Sorted.find?_insert_self written node _), rfl⟩
      obtain ⟨new, newMember, newPath⟩ := placed
      rcases isCovered with ⟨entry, member, contained⟩ | contained
      · by_cases inside : Path.contains written entry.1 = true
        · exact ⟨new, newMember, newPath ▸
            Path.contains_trans inside contained⟩
        · have differs : entry.1 ≠ written := by
            intro equality
            rw [equality] at inside
            exact inside (Path.contains_self written)
          refine ⟨entry, Sorted.mem_of_find?_eq_some ?_, contained⟩
          rw [Sorted.find?_insert_of_ne node differs]
          refine Sorted.find?_of_mem
            (Sorted.ascending_filter _ valid.ascending)
            (List.mem_filter.mpr ⟨member, ?_⟩)
          simpa using inside
      · exact ⟨new, newMember, newPath ▸ contained⟩

@[simp]
theorem isSome_node?_adds
    {overlay : Overlay} (valid : overlay.Valid)
    {writes : List (Path × Node)}
    (canonical : ∀ write ∈ writes, write.2.Canonical) (path : Path) :
    ((overlay.adds writes).node? path).isSome =
      ((overlay.node? path).isSome ||
        writes.any fun write => Path.contains write.1 path) := by
  induction writes generalizing overlay with
  | nil => rw [adds_nil, List.any_nil, Bool.or_false]
  | cons write rest inductionHypothesis =>
      obtain ⟨first, others⟩ := List.forall_mem_cons.mp canonical
      rw [adds_cons, inductionHypothesis (valid.add first write.1) others,
        isSome_node?_add valid, List.any_cons, Bool.or_assoc]

/-- Every location of an overlay is one that was written. -/
theorem path_of_mem_adds
    {overlay : Overlay} {writes : List (Path × Node)}
    {entry : Path × Node} (member : entry ∈ (overlay.adds writes).writes) :
    (∃ stored ∈ overlay.writes, stored.1 = entry.1) ∨
      ∃ write ∈ writes, write.1 = entry.1 := by
  induction writes generalizing overlay with
  | nil => exact Or.inl ⟨entry, member, rfl⟩
  | cons write rest inductionHypothesis =>
      obtain ⟨path, node⟩ := write
      rcases inductionHypothesis member with ⟨stored, storedMember, same⟩ | later
      · rw [← same]
        cases covered : overlay.covering? path with
        | none =>
            rw [writes_add_of_open covered] at storedMember
            rcases Sorted.mem_of_mem_insert storedMember with rfl | old
            · exact Or.inr ⟨_, List.mem_cons_self, rfl⟩
            · exact Or.inl ⟨stored, (List.mem_filter.mp old).1, rfl⟩
        | some above =>
            have isAbove := List.find?_some covered
            have aboveMember := List.mem_of_find?_eq_some covered
            obtain ⟨below, rfl⟩ := Path.contains_iff.mp isAbove
            rw [writes_add_of_covered covered] at storedMember
            rcases Sorted.mem_of_mem_insert storedMember with rfl | old
            · exact Or.inl ⟨above, aboveMember, rfl⟩
            · exact Or.inl ⟨stored, old, rfl⟩
      · obtain ⟨other, otherMember, same⟩ := later
        exact Or.inr ⟨other, List.mem_cons_of_mem _ otherMember, same⟩

/-! ## Overlays that are the same -/

private theorem forall₂_trans
    {left middle right : List (Path × Node)}
    (first : List.Forall₂ (fun a b => a.1 = b.1 ∧ a.2 ≈ b.2)
      left middle)
    (second : List.Forall₂ (fun a b => a.1 = b.1 ∧ a.2 ≈ b.2)
      middle right) :
    List.Forall₂ (fun a b => a.1 = b.1 ∧ a.2 ≈ b.2) left right := by
  induction first generalizing right with
  | nil =>
      cases second
      exact List.Forall₂.nil
  | cons head _ inductionHypothesis =>
      cases second with
      | cons nextHead nextTail =>
          exact List.Forall₂.cons
            ⟨head.1.trans nextHead.1, Setoid.trans head.2 nextHead.2⟩
            (inductionHypothesis nextTail)

/-- Overlays are the same if they write nodes that are the same at the same locations. -/
instance setoid : Setoid Overlay where
  r left right :=
    List.Forall₂ (fun a b => a.1 = b.1 ∧ a.2 ≈ b.2)
      left.writes right.writes
  iseqv :=
    ⟨fun _ => List.forall₂_same.mpr fun _ _ => ⟨rfl, Setoid.refl _⟩,
      fun related =>
        (related.imp fun _ _ same =>
          ⟨same.1.symm, Setoid.symm same.2⟩).flip,
      forall₂_trans⟩

theorem equiv_iff {left right : Overlay} :
    left ≈ right ↔
      List.Forall₂ (fun a b => a.1 = b.1 ∧ a.2 ≈ b.2)
        left.writes right.writes :=
  Iff.rfl

theorem find?_congr
    {left right : Overlay} (equal : left ≈ right) (path : Path) :
    Option.Rel (· ≈ ·)
      (Sorted.find? path left.writes) (Sorted.find? path right.writes) :=
  Sorted.find?_rel_of_forall₂ path equal

theorem equiv_of_find?
    {left right : Overlay}
    (leftValid : left.Valid) (rightValid : right.Valid)
    (related : ∀ path, Option.Rel (· ≈ ·)
      (Sorted.find? path left.writes)
      (Sorted.find? path right.writes)) :
    left ≈ right :=
  Sorted.forall₂_of_find? (· ≈ ·) leftValid.ascending
    rightValid.ascending related

/-- The same overlays cover the same locations with nodes that are the same. -/
theorem covering?_congr
    {left right : Overlay} (equal : left ≈ right) (path : Path) :
    Option.Rel (fun a b => a.1 = b.1 ∧ a.2 ≈ b.2)
      (left.covering? path) (right.covering? path) := by
  rw [equiv_iff] at equal
  rw [covering?_eq_find?, covering?_eq_find?]
  generalize left.writes = writes at *
  generalize right.writes = others at *
  induction equal with
  | nil => exact Option.Rel.none
  | @cons write other rest otherRest head _ inductionHypothesis =>
      rw [List.find?_cons, List.find?_cons, ← head.1]
      split
      · exact Option.Rel.some head
      · exact inductionHypothesis

theorem rel_refl (found : Option Node) :
    Option.Rel (· ≈ ·) found found := by
  cases found with
  | none => exact Option.Rel.none
  | some node => exact Option.Rel.some (Setoid.refl node)

private theorem add_congr
    {left right : Overlay} (equal : left ≈ right)
    (leftValid : left.Valid) (rightValid : right.Valid)
    {node : Node} (canonical : node.Canonical) (path : Path) :
    left.add path node ≈ right.add path node := by
  refine equiv_of_find? (leftValid.add canonical path)
    (rightValid.add canonical path) fun other => ?_
  have sameCovering := covering?_congr equal path
  rcases covering?_cases leftValid path with
    ⟨above, below, existing, rfl, stored, covered⟩ | uncovered
  · rw [covered] at sameCovering
    cases rightCovered : right.covering? (above ++ below) with
    | none =>
        rw [rightCovered] at sameCovering
        cases sameCovering
    | some write =>
        obtain ⟨otherAbove, otherExisting⟩ := write
        rw [rightCovered] at sameCovering
        cases sameCovering with
        | some related =>
            obtain ⟨samePath, sameNode⟩ := related
            dsimp only at samePath sameNode
            subst samePath
            have rightStored :=
              (covering?_eq_some_iff rightValid).mp rightCovered
            rw [find?_add_of_covered covered,
              find?_add_of_covered rightCovered]
            split
            · refine Option.Rel.some ?_
              exact Node.setDescendant_congr sameNode (Setoid.refl node)
                (leftValid.canonical _
                  (Sorted.mem_of_find?_eq_some stored))
                (rightValid.canonical _ rightStored.1)
                canonical canonical below
            · exact find?_congr equal other
  · rw [uncovered] at sameCovering
    have rightUncovered : right.covering? path = none := by
      generalize right.covering? path = found at *
      cases sameCovering
      rfl
    rw [find?_add_of_open leftValid uncovered,
      find?_add_of_open rightValid rightUncovered]
    split
    · exact rel_refl _
    · split
      · exact Option.Rel.none
      · exact find?_congr equal other

theorem adds_congr
    {left right : Overlay} (equal : left ≈ right)
    (leftValid : left.Valid) (rightValid : right.Valid)
    {writes : List (Path × Node)}
    (canonical : ∀ write ∈ writes, write.2.Canonical) :
    left.adds writes ≈ right.adds writes := by
  induction writes generalizing left right with
  | nil => exact equal
  | cons write rest inductionHypothesis =>
      obtain ⟨first, others⟩ := List.forall_mem_cons.mp canonical
      exact inductionHypothesis
        (add_congr equal leftValid rightValid first write.1)
        (leftValid.add first write.1) (rightValid.add first write.1)
        others

end Replica.Overlay
