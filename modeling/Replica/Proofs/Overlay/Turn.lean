import Replica.Proofs.Overlay.Restrict

/-!
# How an overlay turns

An operation leaves the overlay alone, puts its writes on top of it, or takes its writes out from
among all others. In each case the overlay stays as it was wherever the writes are not seen, and
from a location it turns in the same way by what is seen there of the writes. Across a priority
key this holds below the location only.
-/

namespace Replica.Overlay

/-- How an overlay turns into the next one by the writes of an operation. -/
inductive Turns (overlay next : Overlay) (writes : List (Path × Node)) :
    Prop where
  | kept (same : next = overlay)
  | added (isNext : next = overlay.adds writes)
  | removed {before after : List (Path × Node)}
      (canonicalBefore : ∀ write ∈ before, write.2.Canonical)
      (canonicalAfter : ∀ write ∈ after, write.2.Canonical)
      (was : overlay = empty.adds (before ++ writes ++ after))
      (isNext : next = empty.adds (before ++ after))

@[simp]
theorem restrict_empty (base : Path) : empty.restrict base = empty := by
  refine ext_writes ?_
  rw [writes_restrict Valid.empty]
  rfl

theorem canonical_of_mem_append
    {first second : List (Path × Node)}
    (firstCanonical : ∀ write ∈ first, write.2.Canonical)
    (secondCanonical : ∀ write ∈ second, write.2.Canonical) :
    ∀ write ∈ first ++ second, write.2.Canonical := by
  intro write member
  rcases List.mem_append.mp member with inFirst | inSecond
  · exact firstCanonical write inFirst
  · exact secondCanonical write inSecond

theorem restrict_adds_empty
    {base : Path} {writes : List (Path × Node)}
    (canonical : ∀ write ∈ writes, write.2.Canonical)
    (plain : (empty.adds writes).Plain base) :
    (empty.adds writes).restrict base ≈
      empty.adds (writes.filterMap (seenFrom base)) := by
  have shown := restrict_adds Valid.empty canonical plain
  rw [restrict_empty] at shown
  exact shown

/-- What is seen from a location of a write at or above it is something. -/
theorem outside_of_unseen
    {base : Path} {writes : List (Path × Node)}
    (unseen : writes.filterMap (seenFrom base) = []) :
    ∀ write ∈ writes, Path.contains write.1 base = false := by
  intro write member
  rw [Bool.eq_false_iff]
  intro contained
  obtain ⟨below, rfl⟩ := Path.contains_iff.mp contained
  have hidden := List.filterMap_eq_nil_iff.mp unseen write member
  rw [seenFrom_above] at hidden
  cases hidden

variable {overlay next : Overlay} {writes : List (Path × Node)}
  (valid : overlay.Valid)
  (canonical : ∀ write ∈ writes, write.2.Canonical)

include valid canonical

/-- Seen from a location, the overlay turns by what is seen of the writes. -/
theorem Turns.restrict
    (turns : Turns overlay next writes) {base : Path}
    (plain : overlay.Plain base) (nextPlain : next.Plain base) :
    ∃ shown nextShown : Overlay,
      Turns shown nextShown (writes.filterMap (seenFrom base)) ∧
        shown.Valid ∧ nextShown.Valid ∧
        overlay.restrict base ≈ shown ∧
        next.restrict base ≈ nextShown := by
  have seen := @canonical_of_mem_filterMap base _ canonical
  cases turns with
  | kept same =>
      rw [same]
      exact ⟨_, _, .kept rfl, valid.restrict base, valid.restrict base,
        Setoid.refl _, Setoid.refl _⟩
  | added isNext =>
      rw [isNext] at nextPlain ⊢
      exact ⟨_, _, .added rfl, valid.restrict base,
        (valid.restrict base).adds seen, Setoid.refl _,
        restrict_adds valid canonical nextPlain⟩
  | @removed before after canonicalBefore canonicalAfter was isNext =>
      have all :=
        canonical_of_mem_append
          (canonical_of_mem_append canonicalBefore canonical)
          canonicalAfter
      have others := canonical_of_mem_append canonicalBefore canonicalAfter
      rw [was] at plain
      rw [isNext] at nextPlain
      have shown := restrict_adds_empty all plain
      have nextShown := restrict_adds_empty others nextPlain
      rw [List.filterMap_append, List.filterMap_append] at shown
      rw [List.filterMap_append] at nextShown
      have seenBefore := @canonical_of_mem_filterMap base _ canonicalBefore
      have seenAfter := @canonical_of_mem_filterMap base _ canonicalAfter
      rw [was, isNext]
      exact ⟨_, _, .removed seenBefore seenAfter rfl rfl,
        Valid.empty.adds (canonical_of_mem_append
          (canonical_of_mem_append seenBefore seen) seenAfter),
        Valid.empty.adds (canonical_of_mem_append seenBefore seenAfter),
        shown, nextShown⟩

/-- The writes cover a location across a priority key only if one of them lies at or above it. -/
theorem Turns.plain_iff
    (turns : Turns overlay next writes) {base : Path}
    (outside : ∀ write ∈ writes, Path.contains write.1 base = false) :
    next.Plain base ↔ overlay.Plain base := by
  have nothing : ∀ write ∈ writes, ∀ below,
      base = write.1 ++ below → below.Unreserved := by
    rintro write member below rfl
    have beside := outside write member
    rw [Path.contains_append] at beside
    cases beside
  cases turns with
  | kept same => rw [same]
  | added isNext =>
      rw [isNext, plain_adds_iff valid canonical]
      exact and_iff_left nothing
  | removed canonicalBefore canonicalAfter was isNext =>
      rw [was, isNext,
        plain_adds_iff Valid.empty (canonical_of_mem_append
          (canonical_of_mem_append canonicalBefore canonical)
          canonicalAfter),
        plain_adds_iff Valid.empty
          (canonical_of_mem_append canonicalBefore canonicalAfter),
        List.forall_mem_append, List.forall_mem_append,
        List.forall_mem_append, and_iff_left nothing]

/-- Where nothing is seen of the writes, the overlay stays as it was. -/
theorem Turns.restrict_of_unseen
    (turns : Turns overlay next writes)
    {base : Path} (plain : overlay.Plain base)
    (unseen : writes.filterMap (seenFrom base) = []) :
    next.restrict base ≈ overlay.restrict base := by
  have nextPlain :=
    (turns.plain_iff valid canonical (outside_of_unseen unseen)).mpr plain
  obtain ⟨shown, nextShown, shownTurns, _, _, isShown, isNextShown⟩ :=
    turns.restrict valid canonical plain nextPlain
  have same : nextShown = shown := by
    rw [unseen] at shownTurns
    cases shownTurns with
    | kept same => exact same
    | added isNext => exact isNext
    | removed _ _ was isNext =>
        rw [was, isNext, List.append_nil]
  rw [same] at isNextShown
  exact Setoid.trans isNextShown (Setoid.symm isShown)

/-- Children that see nothing of the writes see the overlay as it was, even across a priority
key. -/
theorem Turns.restrict_child_of_unseen
    (turns : Turns overlay next writes) {base : Path}
    (outside : ∀ write ∈ writes, Path.contains write.1 base = false)
    {key : Key} (unreserved : key.isPriority = false)
    (unseen : writes.filterMap (seenFrom (base ++ [key])) = [])
    (nextValid : next.Valid) :
    next.restrict (base ++ [key]) ≈ overlay.restrict (base ++ [key]) := by
  by_cases plain : overlay.Plain base
  · exact turns.restrict_of_unseen valid canonical (plain.child unreserved)
      unseen
  · have nextNotPlain : ¬ next.Plain base := by
      rw [turns.plain_iff valid canonical outside]
      exact plain
    have same :
        (next.restrict (base ++ [key])).writes =
          (overlay.restrict (base ++ [key])).writes := by
      rw [writes_restrict_child_of_not_plain valid plain,
        writes_restrict_child_of_not_plain nextValid nextNotPlain]
    rw [ext_writes same]

/-- The writes cover and uncover only what lies at or below one of them. -/
theorem Turns.isSome_node?
    (turns : Turns overlay next writes) {path : Path}
    (outside : ∀ write ∈ writes, Path.contains write.1 path = false) :
    (next.node? path).isSome = (overlay.node? path).isSome := by
  have nothing :
      (writes.any fun write => Path.contains write.1 path) = false := by
    rw [List.any_eq_false]
    intro write member
    rw [outside write member]
    simp
  cases turns with
  | kept same => rw [same]
  | added isNext =>
      rw [isNext, isSome_node?_adds valid canonical, nothing, Bool.or_false]
  | removed canonicalBefore canonicalAfter was isNext =>
      rw [was, isNext,
        isSome_node?_adds Valid.empty (canonical_of_mem_append
          (canonical_of_mem_append canonicalBefore canonical)
          canonicalAfter),
        isSome_node?_adds Valid.empty
          (canonical_of_mem_append canonicalBefore canonicalAfter),
        List.any_append, List.any_append, List.any_append, nothing,
        Bool.or_false]

end Replica.Overlay
