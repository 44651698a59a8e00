import Replica.Proofs.Overlay.Valid

/-!
# Overlays as seen from a location

Restricting an overlay keeps what is seen of its writes. Unless a write covers the location across
a priority key, this commutes with adding a write, so an overlay as seen from a location depends
only on the writes that are seen from there.
-/

namespace Replica.Overlay

/-! ## The restricted writes -/

theorem ext_writes
    {left right : Overlay} (equal : left.writes = right.writes) :
    left = right := by
  cases left
  cases right
  exact congrArg Overlay.mk equal

private theorem not_seen_beside
    {overlay : Overlay} (valid : overlay.Valid)
    {above below : Path} {node : Node}
    (stored : Sorted.find? above overlay.writes = some node)
    {other : Path × Node} (member : other ∈ overlay.writes)
    (different : other.1 ≠ above) :
    seenFrom (above ++ below) other = none := by
  have storedMember := Sorted.mem_of_find?_eq_some stored
  refine seenFrom_beside other.2 ?_ ?_
  · rw [Bool.eq_false_iff]
    intro contained
    rcases Path.contains_or_contains contained
        (Path.contains_append above below) with first | second
    · exact different (valid.apart _ member _ storedMember first)
    · exact different (valid.apart _ storedMember _ member second).symm
  · rw [Bool.eq_false_iff]
    intro contained
    have first :=
      Path.contains_trans (Path.contains_append above below) contained
    exact different (valid.apart _ storedMember _ member first).symm

private theorem filterMap_seenFrom_of_covered
    {overlay : Overlay} (valid : overlay.Valid)
    {above : Path} {node : Node}
    (stored : Sorted.find? above overlay.writes = some node)
    (below : Path) :
    overlay.writes.filterMap (seenFrom (above ++ below)) =
      [([], node.descendant below)] := by
  have notSeen (other : Path × Node) :=
    @not_seen_beside overlay valid above below node stored other
  obtain ⟨before, after, split⟩ :=
    List.append_of_mem (Sorted.mem_of_find?_eq_some stored)
  have ascending := valid.ascending
  rw [Sorted.Ascending, split, List.pairwise_append,
    List.pairwise_cons] at ascending
  obtain ⟨_, ⟨later, _⟩, earlier⟩ := ascending
  have hiddenBefore :
      before.filterMap (seenFrom (above ++ below)) = [] := by
    refine List.filterMap_eq_nil_iff.mpr fun other member => ?_
    refine notSeen other ?_ fun equality => ?_
    · rw [split]
      exact List.mem_append_left _ member
    · have order := earlier other member _ List.mem_cons_self
      rw [equality, Std.ReflOrd.compare_self] at order
      cases order
  have hiddenAfter :
      after.filterMap (seenFrom (above ++ below)) = [] := by
    refine List.filterMap_eq_nil_iff.mpr fun other member => ?_
    refine notSeen other ?_ fun equality => ?_
    · rw [split]
      exact List.mem_append_right _ (List.mem_cons_of_mem _ member)
    · have order := later other member
      rw [equality, Std.ReflOrd.compare_self] at order
      cases order
  rw [split, List.filterMap_append, List.filterMap_cons, hiddenBefore,
    hiddenAfter, seenFrom_above]
  rfl

/-- Restricting an overlay keeps what is seen of its writes. -/
theorem writes_restrict
    {overlay : Overlay} (valid : overlay.Valid) (base : Path) :
    (overlay.restrict base).writes =
      overlay.writes.filterMap (seenFrom base) := by
  by_cases root : base = []
  · subst root
    have everything :
        seenFrom [] = fun write : Path × Node => some write :=
      funext seenFrom_root
    rw [everything, List.filterMap_some]
    rfl
  · unfold restrict
    rw [if_neg (by simpa using root)]
    rcases covering?_cases valid base with
      ⟨above, below, node, rfl, stored, covered⟩ | uncovered
    · rw [node?_of_find? valid stored,
        filterMap_seenFrom_of_covered valid stored]
      rfl
    · rw [node?_eq_none_iff.mpr uncovered]
      refine List.filterMap_congr fun write member => ?_
      have notAbove := covering?_eq_none_iff.mp uncovered write member
      unfold seenFrom
      dsimp only
      cases Path.below? write.1 base with
      | some _ => rfl
      | none =>
          rw [Path.below?_eq_none_iff.mpr notAbove]
          rfl

theorem writes_restrict_of_covered
    {overlay : Overlay} (valid : overlay.Valid)
    {above : Path} {node : Node}
    (stored : Sorted.find? above overlay.writes = some node)
    (below : Path) :
    (overlay.restrict (above ++ below)).writes =
      [([], node.descendant below)] := by
  rw [writes_restrict valid, filterMap_seenFrom_of_covered valid stored]

private theorem mem_writes_restrict_of_open
    {overlay : Overlay} (valid : overlay.Valid)
    {base : Path} (uncovered : overlay.covering? base = none)
    {path : Path} {node : Node} :
    (path, node) ∈ (overlay.restrict base).writes ↔
      (base ++ path, node) ∈ overlay.writes := by
  rw [writes_restrict valid, List.mem_filterMap]
  constructor
  · rintro ⟨⟨written, other⟩, member, isSeen⟩
    rcases Path.related_cases written base with
      ⟨below, rfl⟩ | ⟨below, rfl⟩ | ⟨notAbove, notBelow⟩
    · rw [seenFrom_below] at isSeen
      cases isSeen
      exact member
    · have notAbove := covering?_eq_none_iff.mp uncovered _ member
      rw [Path.contains_append] at notAbove
      cases notAbove
    · rw [seenFrom_beside other notAbove notBelow] at isSeen
      cases isSeen
  · intro member
    exact ⟨_, member, seenFrom_below base path node⟩

private theorem ascending_restrict_of_open
    {overlay : Overlay} (valid : overlay.Valid)
    {base : Path} (uncovered : overlay.covering? base = none) :
    Sorted.Ascending (overlay.restrict base).writes := by
  have notAbove := covering?_eq_none_iff.mp uncovered
  rw [writes_restrict valid, Sorted.Ascending, List.pairwise_filterMap]
  refine valid.ascending.imp_of_mem ?_
  intro first second firstMember secondMember order seen isSeen other
    otherIsSeen
  have origin (write shown : Path × Node)
      (member : write ∈ overlay.writes)
      (isShown : seenFrom base write = some shown) :
      write.1 = base ++ shown.1 := by
    have shownMember : (shown.1, shown.2) ∈ (overlay.restrict base).writes := by
      rw [writes_restrict valid]
      exact List.mem_filterMap.mpr ⟨write, member, isShown⟩
    rcases Path.related_cases write.1 base with
      ⟨below, equality⟩ | ⟨below, equality⟩ | ⟨above, beside⟩
    · have same : write = (base ++ below, write.2) :=
        Prod.ext equality rfl
      rw [same, seenFrom_below] at isShown
      cases isShown
      exact equality
    · have contained := notAbove write member
      rw [equality, Path.contains_append] at contained
      cases contained
    · have hidden := seenFrom_beside write.2 above beside
      rw [hidden] at isShown
      cases isShown
  rw [origin first seen firstMember isSeen,
    origin second other secondMember otherIsSeen,
    Path.compare_append] at order
  exact order

theorem Valid.restrict
    {overlay : Overlay} (valid : overlay.Valid) (base : Path) :
    Valid (overlay.restrict base) := by
  rcases covering?_cases valid base with
    ⟨above, below, node, rfl, stored, covered⟩ | uncovered
  · have canonical :=
      valid.canonical _ (Sorted.mem_of_find?_eq_some stored)
    have alone : overlay.restrict (above ++ below) =
        Overlay.ofNode (node.descendant below) :=
      ext_writes (writes_restrict_of_covered valid stored below)
    rw [alone]
    exact Valid.ofNode (canonical.descendant below)
  · refine ⟨ascending_restrict_of_open valid uncovered, ?_, ?_⟩
    · intro upper upperMember lower lowerMember contained
      have first :=
        (mem_writes_restrict_of_open valid uncovered).mp upperMember
      have second :=
        (mem_writes_restrict_of_open valid uncovered).mp lowerMember
      have samePath := valid.apart _ first _ second (by
        rw [Path.contains_append_append]
        exact contained)
      exact List.append_cancel_left samePath
    · intro write member
      exact valid.canonical (base ++ write.1, write.2)
        ((mem_writes_restrict_of_open valid uncovered).mp member)

private theorem find?_restrict_of_covered
    {overlay : Overlay} (valid : overlay.Valid)
    {above : Path} {node : Node}
    (stored : Sorted.find? above overlay.writes = some node)
    (below path : Path) :
    Sorted.find? path (overlay.restrict (above ++ below)).writes =
      if path = [] then some (node.descendant below) else none := by
  rw [writes_restrict_of_covered valid stored]
  by_cases root : path = []
  · rw [if_pos root, root]
    exact Sorted.find?_cons_self [] _ _
  · rw [if_neg root]
    exact Sorted.find?_insert_of_ne (node.descendant below) root []

private theorem find?_restrict_of_open
    {overlay : Overlay} (valid : overlay.Valid)
    {base : Path} (uncovered : overlay.covering? base = none)
    (path : Path) :
    Sorted.find? path (overlay.restrict base).writes =
      Sorted.find? (base ++ path) overlay.writes := by
  refine Option.ext fun node => ?_
  rw [← Sorted.mem_iff_find? (valid.restrict base).ascending,
    ← Sorted.mem_iff_find? valid.ascending]
  exact mem_writes_restrict_of_open valid uncovered

/-! ## Further restriction -/

@[simp]
theorem restrict_root (overlay : Overlay) : overlay.restrict [] = overlay :=
  rfl

/-- A location below is seen alike from every location above it. -/
@[simp]
theorem restrict_restrict
    {overlay : Overlay} (valid : overlay.Valid) (upper lower : Path) :
    (overlay.restrict upper).restrict lower =
      overlay.restrict (upper ++ lower) := by
  refine ext_writes ?_
  rw [writes_restrict (valid.restrict upper), writes_restrict valid,
    writes_restrict valid, filterMap_seenFrom_append]

@[simp]
theorem root?_restrict
    {overlay : Overlay} (valid : overlay.Valid) (base : Path) :
    (overlay.restrict base).root? = overlay.node? base := by
  unfold root?
  rcases covering?_cases valid base with
    ⟨above, below, node, rfl, stored, covered⟩ | uncovered
  · rw [find?_restrict_of_covered valid stored, if_pos rfl,
      node?_of_find? valid stored]
  · rw [find?_restrict_of_open valid uncovered,
      node?_eq_none_iff.mpr uncovered, List.append_nil,
      Option.eq_none_iff_forall_ne_some]
    intro node found
    have covered := covering?_of_find? valid found []
    rw [List.append_nil, uncovered] at covered
    cases covered

/-- A write at the root leaves no room for others. -/
theorem writes_of_root?
    {overlay : Overlay} (valid : overlay.Valid)
    {node : Node} (stored : overlay.root? = some node) :
    overlay.writes = [([], node)] :=
  @writes_restrict_of_covered overlay valid [] node stored []

theorem root?_congr
    {left right : Overlay} (equal : left ≈ right) :
    Option.Rel (· ≈ ·) left.root? right.root? :=
  find?_congr equal []

/-! ## Locations that are covered across a priority key -/

/-- No write covers the location across a priority key. -/
def Plain (overlay : Overlay) (base : Path) : Prop :=
  ∀ above below node, base = above ++ below →
    Sorted.find? above overlay.writes = some node → below.Unreserved

theorem plain_empty (base : Path) : empty.Plain base := by
  intro above below node _ stored
  cases stored

section

variable {overlay : Overlay} (valid : overlay.Valid) {base path : Path}
  {node : Node}

include valid

private theorem unreserved_of_plain_add
    (plain : (overlay.add path node).Plain base) {below : Path}
    (located : base = path ++ below) : below.Unreserved := by
  rcases covering?_cases valid path with
    ⟨above, rest, existing, rfl, stored, covered⟩ | open'
  · have stillStored := find?_add_of_covered covered node above
    rw [if_pos rfl] at stillStored
    rw [List.append_assoc] at located
    exact (Path.unreserved_append_iff.mp
      (plain above (rest ++ below) _ located stillStored)).2
  · have nowStored := find?_add_of_open valid open' node path
    rw [if_pos rfl] at nowStored
    exact plain path below node located nowStored

/-- What is stored elsewhere than below the new write remains stored. -/
private theorem exists_find?_add
    {above : Path} {existing : Node}
    (stored : Sorted.find? above overlay.writes = some existing)
    (beside : Path.contains path above = false) :
    ∃ now,
      Sorted.find? above (overlay.add path node).writes = some now := by
  rcases covering?_cases valid path with
    ⟨upper, rest, changed, rfl, upperStored, covered⟩ | open'
  · rw [find?_add_of_covered covered]
    split
    · exact ⟨_, rfl⟩
    · exact ⟨existing, stored⟩
  · have differs : above ≠ path := (Path.ne_of_not_contains beside).symm
    rw [find?_add_of_open valid open', if_neg differs, beside,
      if_neg Bool.false_ne_true]
    exact ⟨existing, stored⟩

private theorem plain_of_plain_add
    (plain : (overlay.add path node).Plain base) : overlay.Plain base := by
  intro above below existing located stored
  cases covers : Path.contains path above with
  | true =>
      obtain ⟨rest, rfl⟩ := Path.contains_iff.mp covers
      rw [List.append_assoc] at located
      exact (Path.unreserved_append_iff.mp
        (unreserved_of_plain_add valid plain located)).2
  | false =>
      obtain ⟨now, nowStored⟩ := exists_find?_add valid stored covers
      exact plain above below now located nowStored

private theorem Plain.add
    (plain : overlay.Plain base)
    (whole : ∀ below, base = path ++ below → below.Unreserved) :
    (overlay.add path node).Plain base := by
  intro above below existing located stored
  rcases covering?_cases valid path with
    ⟨upper, rest, changed, rfl, upperStored, covered⟩ | open'
  · rw [find?_add_of_covered covered] at stored
    split at stored
    · rename_i here
      rw [here] at located
      exact plain upper below changed located upperStored
    · exact plain above below existing located stored
  · rw [find?_add_of_open valid open'] at stored
    split at stored
    · rename_i here
      rw [here] at located
      exact whole below located
    · split at stored
      · cases stored
      · exact plain above below existing located stored

private theorem plain_add_iff :
    (overlay.add path node).Plain base ↔
      overlay.Plain base ∧
        ∀ below, base = path ++ below → below.Unreserved := by
  constructor
  · intro plain
    exact ⟨plain_of_plain_add valid plain,
      fun _ => unreserved_of_plain_add valid plain⟩
  · rintro ⟨plain, whole⟩
    exact Plain.add valid plain whole

end

theorem plain_adds_iff
    {overlay : Overlay} (valid : overlay.Valid) {base : Path}
    {writes : List (Path × Node)}
    (canonical : ∀ write ∈ writes, write.2.Canonical) :
    (overlay.adds writes).Plain base ↔
      overlay.Plain base ∧
        ∀ write ∈ writes, ∀ below,
          base = write.1 ++ below → below.Unreserved := by
  induction writes generalizing overlay with
  | nil =>
      exact (and_iff_left fun _ member =>
        absurd member List.not_mem_nil).symm
  | cons write rest inductionHypothesis =>
      obtain ⟨first, others⟩ := List.forall_mem_cons.mp canonical
      rw [adds_cons, inductionHypothesis (valid.add first write.1) others,
        plain_add_iff valid, List.forall_mem_cons, and_assoc]

theorem Plain.child
    {overlay : Overlay} {base : Path} (plain : overlay.Plain base)
    {key : Key} (unreserved : key.isPriority = false) :
    overlay.Plain (base ++ [key]) := by
  intro above below node located stored
  rcases List.eq_nil_or_concat below with rfl | ⟨rest, last, rfl⟩
  · exact fun _ member => absurd member List.not_mem_nil
  · rw [List.concat_eq_append] at located ⊢
    rw [← List.append_assoc] at located
    obtain ⟨isBase, isKey⟩ := List.append_inj' located rfl
    cases isKey
    exact Path.unreserved_append_iff.mpr
      ⟨plain above rest node isBase stored,
        Path.unreserved_singleton unreserved⟩

/-- Of a write across a priority key, nothing is seen below the location. -/
theorem writes_restrict_child_of_not_plain
    {overlay : Overlay} (valid : overlay.Valid) {base : Path}
    (notPlain : ¬ overlay.Plain base) (key : Key) :
    (overlay.restrict (base ++ [key])).writes = [([], .empty)] := by
  have covered : ∃ above below node, base = above ++ below ∧
      Sorted.find? above overlay.writes = some node ∧
        ¬ below.Unreserved := by
    by_contra none'
    refine notPlain fun above below node located stored => ?_
    by_contra reserved
    exact none' ⟨above, below, node, located, stored, reserved⟩
  obtain ⟨above, below, node, rfl, stored, reserved⟩ := covered
  rw [List.append_assoc, writes_restrict_of_covered valid stored,
    Node.descendant_eq_empty_of_reserved reserved]

/-! ## Restriction and further writes -/

/-- A write at the root replaces all others. -/
@[simp]
theorem writes_add_root
    {overlay : Overlay} (valid : overlay.Valid) (node : Node) :
    (overlay.add [] node).writes = [([], node)] := by
  rcases covering?_cases valid [] with
    ⟨above, below, existing, nothing, stored, covered⟩ | uncovered
  · obtain ⟨rfl, rfl⟩ := List.append_eq_nil_iff.mp nothing.symm
    have added :
        (overlay.add [] node).writes =
          Sorted.insert [] node overlay.writes :=
      @writes_add_of_covered overlay [] [] existing covered node
    rw [added, writes_of_root? valid stored]
    rfl
  · have emptied :
        overlay.writes.filter (fun write =>
          !Path.contains [] write.1) = [] := by
      refine List.filter_eq_nil_iff.mpr fun write _ => ?_
      have contained : Path.contains [] write.1 = true :=
        Path.contains_append [] write.1
      rw [contained]
      simp
    rw [writes_add_of_open uncovered, emptied]
    rfl

/-- A location stays uncovered when nothing is written at it or above it. -/
private theorem covering?_add_eq_none
    {overlay : Overlay} (valid : overlay.Valid) {base path : Path}
    (uncovered : overlay.covering? base = none)
    (notAbove : Path.contains path base = false) (node : Node) :
    (overlay.add path node).covering? base = none := by
  have nothingAbove := covering?_eq_none_iff.mp uncovered
  refine covering?_eq_none_iff.mpr fun write member => ?_
  rcases covering?_cases valid path with
    ⟨upper, rest, changed, rfl, stored, covered⟩ | open'
  · rw [writes_add_of_covered covered] at member
    rcases Sorted.mem_of_mem_insert member with rfl | old
    · exact nothingAbove (upper, changed)
        (Sorted.mem_of_find?_eq_some stored)
    · exact nothingAbove write old
  · rw [writes_add_of_open open'] at member
    rcases Sorted.mem_of_mem_insert member with rfl | old
    · exact notAbove
    · exact nothingAbove write (List.mem_filter.mp old).1

section

variable {overlay : Overlay} (valid : overlay.Valid) {node : Node}
  (canonical : node.Canonical)

include valid canonical

/-- The write that covers the base takes the new one in, above the base and below it. -/
private theorem restrict_add_below_of_covered
    {above below : Path} (unreserved : below.Unreserved)
    {existing : Node}
    (stored : Sorted.find? above overlay.writes = some existing)
    (path : Path) :
    (overlay.add (above ++ below ++ path) node).restrict (above ++ below) ≈
      (overlay.restrict (above ++ below)).add path node := by
  have added := valid.add canonical (above ++ below ++ path)
  have restricted := valid.restrict (above ++ below)
  refine equiv_of_find? (added.restrict _)
    (restricted.add canonical path) fun other => ?_
  rw [List.append_assoc] at added ⊢
  have stillStored :=
    find?_add_of_covered
      (covering?_of_find? valid stored (below ++ path)) node above
  rw [if_pos rfl] at stillStored
  have rootCovers :
      (overlay.restrict (above ++ below)).covering? ([] ++ path) =
        some ([], existing.descendant below) :=
    covering?_of_find? restricted (by
      rw [find?_restrict_of_covered valid stored, if_pos rfl]) path
  rw [find?_restrict_of_covered added stillStored,
    ← List.nil_append path, find?_add_of_covered rootCovers,
    find?_restrict_of_covered valid stored]
  split
  · exact Option.Rel.some
      (Node.descendant_setDescendant_below
        (valid.canonical _ (Sorted.mem_of_find?_eq_some stored))
        canonical unreserved path)
  · exact Option.Rel.none

/-- The new write goes to an uncovered base or below it. -/
private theorem restrict_add_below_of_open
    {base : Path} (uncovered : overlay.covering? base = none)
    (path : Path) :
    (overlay.add (base ++ path) node).restrict base ≈
      (overlay.restrict base).add path node := by
  have added := valid.add canonical (base ++ path)
  have restricted := valid.restrict base
  have notAbove := covering?_eq_none_iff.mp uncovered
  refine equiv_of_find? (added.restrict base)
    (restricted.add canonical path) fun other => ?_
  rcases covering?_cases valid (base ++ path) with
    ⟨above, below, existing, equality, stored, covered⟩ | open'
  · -- The covering write lies strictly below the base.
    have storedBelow := notAbove _ (Sorted.mem_of_find?_eq_some stored)
    have lower : ∃ rest, above = base ++ rest := by
      have inLine :=
        Path.contains_or_contains
          (Path.contains_append base path)
          (by rw [equality]; exact Path.contains_append above below)
      rcases inLine with contained | contained
      · exact Path.contains_iff.mp contained
      · rw [storedBelow] at contained
        cases contained
    obtain ⟨rest, rfl⟩ := lower
    rw [List.append_assoc] at equality
    obtain rfl := List.append_cancel_left equality
    rw [← List.append_assoc] at covered added ⊢
    have newBelow :
        Path.contains (base ++ rest ++ below) base = false := by
      rw [Bool.eq_false_iff]
      intro contained
      rw [Path.contains_trans
        (Path.contains_append (base ++ rest) below) contained]
        at storedBelow
      cases storedBelow
    have stillUncovered :=
      covering?_add_eq_none valid uncovered newBelow node
    have restCovers :
        (overlay.restrict base).covering? (rest ++ below) =
          some (rest, existing) :=
      covering?_of_find? restricted (by
        rw [find?_restrict_of_open valid uncovered, stored]) below
    rw [find?_restrict_of_open added stillUncovered,
      find?_add_of_covered covered, find?_add_of_covered restCovers,
      find?_restrict_of_open valid uncovered]
    simp only [List.append_cancel_left_eq]
    exact rel_refl _
  · -- Nothing covers the new write.
    have openBelow :
        (overlay.restrict base).covering? path = none := by
      refine covering?_eq_none_iff.mpr fun write member => ?_
      have old :=
        (mem_writes_restrict_of_open valid uncovered).mp member
      have apart := covering?_eq_none_iff.mp open' _ old
      rw [Path.contains_append_append] at apart
      exact apart
    by_cases here : path = []
    · subst here
      rw [List.append_nil] at open' added ⊢
      have nowStored :=
        find?_add_of_open valid open' node base
      rw [if_pos rfl] at nowStored
      have shown := find?_restrict_of_covered added nowStored [] other
      rw [List.append_nil] at shown
      have everywhere : Path.contains [] other = true :=
        Path.contains_append [] other
      rw [shown, find?_add_of_open restricted openBelow, everywhere,
        if_pos rfl]
      exact rel_refl _
    · have newBelow : Path.contains (base ++ path) base = false := by
        rw [Bool.eq_false_iff]
        intro contained
        have equality :=
          Path.contains_antisymm contained
            (Path.contains_append base path)
        exact here (List.append_right_eq_self.mp equality)
      have stillUncovered :=
        covering?_add_eq_none valid uncovered newBelow node
      rw [find?_restrict_of_open added stillUncovered,
        find?_add_of_open valid open',
        find?_add_of_open restricted openBelow,
        find?_restrict_of_open valid uncovered,
        Path.contains_append_append]
      simp only [List.append_cancel_left_eq]
      exact rel_refl _

private theorem restrict_add_below
    {base : Path} (plain : overlay.Plain base) (path : Path) :
    (overlay.add (base ++ path) node).restrict base ≈
      (overlay.restrict base).add path node := by
  rcases covering?_cases valid base with
    ⟨above, below, existing, rfl, stored, covered⟩ | uncovered
  · exact restrict_add_below_of_covered valid canonical
      (plain above below existing rfl stored) stored path
  · exact restrict_add_below_of_open valid canonical uncovered path

private theorem restrict_add_above
    {path below : Path} (plain : overlay.Plain (path ++ below)) :
    (overlay.add path node).restrict (path ++ below) ≈
      (overlay.restrict (path ++ below)).add []
        (node.descendant below) := by
  have added := valid.add canonical path
  rw [equiv_iff, writes_add_root (valid.restrict (path ++ below))]
  rcases covering?_cases valid path with
    ⟨above, rest, existing, rfl, stored, covered⟩ | uncovered
  · have stillStored := find?_add_of_covered covered node above
    rw [if_pos rfl] at stillStored
    rw [List.append_assoc] at plain ⊢
    have unreserved := plain above (rest ++ below) existing rfl stored
    rw [writes_restrict_of_covered added stillStored]
    refine List.Forall₂.cons ⟨rfl, ?_⟩ List.Forall₂.nil
    exact Node.descendant_setDescendant_above
      (valid.canonical _ (Sorted.mem_of_find?_eq_some stored)) canonical
      (Path.unreserved_append_iff.mp unreserved).1 below
  · have nowStored := find?_add_of_open valid uncovered node path
    rw [if_pos rfl] at nowStored
    rw [writes_restrict_of_covered added nowStored]
    exact List.Forall₂.cons ⟨rfl, Setoid.refl _⟩ List.Forall₂.nil

section

variable {base path : Path} (notAbove : Path.contains path base = false)
  (notBelow : Path.contains base path = false)

include notAbove notBelow

/-- What covers the base may change at the new location, which the base does not see. -/
private theorem restrict_add_beside_of_covered
    {above below : Path} (unreserved : below.Unreserved)
    (located : base = above ++ below) {existing : Node}
    (stored : Sorted.find? above overlay.writes = some existing) :
    (overlay.add path node).restrict base ≈ overlay.restrict base := by
  subst located
  have added := valid.add canonical path
  refine equiv_of_find? (added.restrict _) (valid.restrict _)
    fun other => ?_
  rcases covering?_cases valid path with
    ⟨upper, rest, changed, rfl, upperStored, upperCovered⟩ | open'
  · have stillStored := find?_add_of_covered upperCovered node above
    by_cases here : above = upper
    · -- One write covers both locations and keeps what the base sees.
      subst here
      rw [stored] at upperStored
      cases upperStored
      rw [if_pos rfl] at stillStored
      rw [Path.contains_append_append] at notAbove notBelow
      rw [find?_restrict_of_covered added stillStored,
        find?_restrict_of_covered valid stored]
      split
      · exact Option.Rel.some
          (Node.descendant_setDescendant_beside
            (valid.canonical _ (Sorted.mem_of_find?_eq_some stored))
            canonical unreserved notAbove notBelow)
      · exact Option.Rel.none
    · rw [if_neg here, stored] at stillStored
      rw [find?_restrict_of_covered added stillStored,
        find?_restrict_of_covered valid stored]
      exact rel_refl _
  · have stillStored := find?_add_of_open valid open' node above
    have outside : Path.contains path above = false := by
      rw [Bool.eq_false_iff]
      intro contained
      rw [Path.contains_trans contained
        (Path.contains_append above below)] at notAbove
      cases notAbove
    have differs : above ≠ path := (Path.ne_of_not_contains outside).symm
    rw [if_neg differs, outside, if_neg (by simp), stored]
      at stillStored
    rw [find?_restrict_of_covered added stillStored,
      find?_restrict_of_covered valid stored]
    exact rel_refl _

private theorem restrict_add_beside_of_open
    (uncovered : overlay.covering? base = none) :
    (overlay.add path node).restrict base ≈ overlay.restrict base := by
  have added := valid.add canonical path
  have stillUncovered := covering?_add_eq_none valid uncovered notAbove node
  refine equiv_of_find? (added.restrict base) (valid.restrict base)
    fun other => ?_
  rw [find?_restrict_of_open added stillUncovered,
    find?_restrict_of_open valid uncovered]
  rcases covering?_cases valid path with
    ⟨upper, rest, changed, rfl, upperStored, upperCovered⟩ | open'
  · have differs : base ++ other ≠ upper := by
      intro equality
      have contained : Path.contains base (upper ++ rest) = true := by
        rw [← equality, List.append_assoc]
        exact Path.contains_append base (other ++ rest)
      rw [notBelow] at contained
      cases contained
    rw [find?_add_of_covered upperCovered, if_neg differs]
    exact rel_refl _
  · have elsewhere : Path.contains path (base ++ other) = false := by
      rw [Bool.eq_false_iff]
      intro contained
      rcases Path.contains_or_contains contained
          (Path.contains_append base other) with above | below
      · rw [notAbove] at above
        cases above
      · rw [notBelow] at below
        cases below
    have differs : base ++ other ≠ path := by
      rintro rfl
      rw [Path.contains_append] at notBelow
      cases notBelow
    rw [find?_add_of_open valid open', if_neg differs, elsewhere,
      if_neg (by simp)]
    exact rel_refl _

private theorem restrict_add_beside (plain : overlay.Plain base) :
    (overlay.add path node).restrict base ≈ overlay.restrict base := by
  rcases covering?_cases valid base with
    ⟨above, below, existing, located, stored, covered⟩ | uncovered
  · exact restrict_add_beside_of_covered valid canonical notAbove notBelow
      (plain above below existing located stored) located stored
  · exact restrict_add_beside_of_open valid canonical notAbove notBelow
      uncovered

end

end

/-- Seen from a location, a new write is what is seen of it. -/
theorem restrict_add
    {overlay : Overlay} (valid : overlay.Valid)
    {base : Path} (plain : overlay.Plain base)
    {write : Path × Node} (canonical : write.2.Canonical) :
    (overlay.add write.1 write.2).restrict base ≈
      (overlay.restrict base).adds (seenFrom base write).toList := by
  obtain ⟨path, node⟩ := write
  rcases Path.related_cases path base with
    ⟨below, rfl⟩ | ⟨below, rfl⟩ | ⟨notAbove, notBelow⟩
  · rw [seenFrom_below]
    exact restrict_add_below valid canonical plain below
  · rw [seenFrom_above]
    exact restrict_add_above valid canonical plain
  · rw [seenFrom_beside node notAbove notBelow]
    exact restrict_add_beside valid canonical notAbove notBelow plain

theorem canonical_of_mem_filterMap
    {base : Path} {writes : List (Path × Node)}
    (canonical : ∀ write ∈ writes, write.2.Canonical) :
    ∀ seen ∈ writes.filterMap (seenFrom base), seen.2.Canonical := by
  intro seen member
  obtain ⟨write, writeMember, isSeen⟩ := List.mem_filterMap.mp member
  exact canonical_of_seenFrom (canonical write writeMember) isSeen

/-- Seen from a location, further writes are what is seen of them. -/
theorem restrict_adds
    {overlay : Overlay} (valid : overlay.Valid) {base : Path}
    {writes : List (Path × Node)}
    (canonical : ∀ write ∈ writes, write.2.Canonical)
    (plain : (overlay.adds writes).Plain base) :
    (overlay.adds writes).restrict base ≈
      (overlay.restrict base).adds
        (writes.filterMap (seenFrom base)) := by
  induction writes generalizing overlay with
  | nil => exact Setoid.refl _
  | cons write rest inductionHypothesis =>
      obtain ⟨first, others⟩ := List.forall_mem_cons.mp canonical
      have added := valid.add first write.1
      have split :
          (write :: rest).filterMap (seenFrom base) =
            (seenFrom base write).toList ++
              rest.filterMap (seenFrom base) := by
        rw [List.filterMap_cons]
        cases seenFrom base write with
        | none => rfl
        | some _ => rfl
      rw [adds_cons, split, adds_append]
      refine Setoid.trans (inductionHypothesis added others plain) ?_
      refine adds_congr
        (restrict_add valid ((plain_adds_iff valid canonical).mp plain).1
          first)
        (added.restrict base) ?_ (canonical_of_mem_filterMap others)
      refine (valid.restrict base).adds fun seen member => ?_
      rw [Option.mem_toList] at member
      exact canonical_of_seenFrom first member

end Replica.Overlay
