import Mathlib.Data.List.Basic
import Mathlib.Data.List.Forall2
import Mathlib.Data.List.Perm.Subperm
import Replica.Sorted

/-!
# Lookups in sorted association lists

A list in strictly ascending key order is determined by its lookups. Insertion and removal keep
the order and change the lookup of their own key only.
-/

namespace Replica.Sorted

open Std

universe u v w

variable {α : Type u} {β : Type v} [Ord α]

/-- The keys of the entries stand in strictly ascending order. -/
def Ascending (entries : List (α × β)) : Prop :=
  entries.Pairwise fun left right => compare left.1 right.1 = .lt

/-! ## Entries in their places -/

@[simp]
theorem find?_nil (key : α) :
    find? key ([] : List (α × β)) = none :=
  rfl

theorem find?_cons_of_lt
    {key other : α} {value : β} {rest : List (α × β)}
    (below : compare key other = .lt) :
    find? key ((other, value) :: rest) = none := by
  simp [find?, below]

theorem find?_cons_of_gt
    {key other : α} {value : β} {rest : List (α × β)}
    (above : compare key other = .gt) :
    find? key ((other, value) :: rest) = find? key rest := by
  simp [find?, above]

/-- A key below all others is not stored. -/
theorem find?_eq_none_of_below
    {key : α} {entries : List (α × β)}
    (below : ∀ entry ∈ entries, compare key entry.1 = .lt) :
    find? key entries = none := by
  cases entries with
  | nil => rfl
  | cons entry rest =>
      exact find?_cons_of_lt (below entry List.mem_cons_self)

theorem mem_of_mem_insert
    {key : α} {value : β} {entry : α × β} :
    ∀ {entries : List (α × β)},
      entry ∈ insert key value entries →
        entry = (key, value) ∨ entry ∈ entries
  | [], member => by
      simpa [insert] using member
  | (other, stored) :: rest, member => by
      rw [insert] at member
      split at member
      · simpa using member
      · rcases List.mem_cons.mp member with headEqual | tailMember
        · exact Or.inl headEqual
        · exact Or.inr (List.mem_cons_of_mem _ tailMember)
      · rcases List.mem_cons.mp member with headEqual | tailMember
        · exact Or.inr (headEqual ▸ List.mem_cons_self)
        · rcases mem_of_mem_insert tailMember with fresh | old
          · exact Or.inl fresh
          · exact Or.inr (List.mem_cons_of_mem _ old)

theorem mem_of_mem_erase
    {key : α} {entry : α × β} :
    ∀ {entries : List (α × β)},
      entry ∈ erase key entries → entry ∈ entries
  | [], member => member
  | (other, stored) :: rest, member => by
      rw [erase] at member
      split at member
      · exact member
      · exact List.mem_cons_of_mem _ member
      · rcases List.mem_cons.mp member with headEqual | tailMember
        · exact headEqual ▸ List.mem_cons_self
        · exact List.mem_cons_of_mem _ (mem_of_mem_erase tailMember)

theorem mem_of_mem_foldl_insert
    {entry : α × β} {entries start : List (α × β)}
    (member : entry ∈ entries.foldl
      (fun map entry => insert entry.1 entry.2 map) start) :
    entry ∈ entries ∨ entry ∈ start := by
  induction entries generalizing start with
  | nil => exact Or.inr member
  | cons first rest inductionHypothesis =>
      rcases inductionHypothesis member with later | earlier
      · exact Or.inl (List.mem_cons_of_mem _ later)
      · rcases mem_of_mem_insert earlier with rfl | old
        · exact Or.inl List.mem_cons_self
        · exact Or.inr old

theorem mem_of_mem_ofList
    {entry : α × β} {entries : List (α × β)}
    (member : entry ∈ ofList entries) : entry ∈ entries :=
  (mem_of_mem_foldl_insert member).resolve_right List.not_mem_nil

theorem ascending_erase
    {key : α} {entries : List (α × β)}
    (ascending : Ascending entries) :
    Ascending (erase key entries) := by
  induction entries with
  | nil => exact ascending
  | cons entry rest inductionHypothesis =>
      obtain ⟨other, stored⟩ := entry
      obtain ⟨least, restAscending⟩ := List.pairwise_cons.mp ascending
      rw [erase]
      split
      · exact ascending
      · exact restAscending
      · refine List.pairwise_cons.mpr
          ⟨?_, inductionHypothesis restAscending⟩
        intro later laterMember
        exact least later (mem_of_mem_erase laterMember)

theorem ascending_filter
    (keep : α × β → Bool) {entries : List (α × β)}
    (ascending : Ascending entries) :
    Ascending (entries.filter keep) :=
  List.Pairwise.filter keep ascending

theorem ascending_filterMap
    {γ : Type w} (change : α × β → Option γ) {entries : List (α × β)}
    (ascending : Ascending entries) :
    Ascending (entries.filterMap fun entry =>
      (change entry).map fun value => (entry.1, value)) := by
  refine List.pairwise_filterMap.mpr
    (ascending.imp fun order left isLeft right isRight => ?_)
  obtain ⟨_, _, rfl⟩ := Option.map_eq_some_iff.mp isLeft
  obtain ⟨_, _, rfl⟩ := Option.map_eq_some_iff.mp isRight
  exact order

/-- A key above all others is stored at the end. -/
theorem insert_of_above
    [OrientedOrd α] {key : α} {entries : List (α × β)}
    (above : ∀ entry ∈ entries, compare entry.1 key = .lt) (value : β) :
    insert key value entries = entries ++ [(key, value)] := by
  induction entries with
  | nil => rfl
  | cons entry rest inductionHypothesis =>
      obtain ⟨other, stored⟩ := entry
      obtain ⟨first, others⟩ := List.forall_mem_cons.mp above
      rw [insert, OrientedCmp.gt_of_lt first]
      dsimp only
      rw [inductionHypothesis others]
      rfl

/-- Removing a key that is not stored changes nothing. -/
theorem erase_of_absent
    {key : α} :
    ∀ {entries : List (α × β)},
      find? key entries = none → erase key entries = entries
  | [], _ => rfl
  | (other, stored) :: rest, absent => by
      rw [erase]
      cases direction : compare key other with
      | lt => rfl
      | eq =>
          rw [find?, direction] at absent
          cases absent
      | gt =>
          rw [find?_cons_of_gt direction] at absent
          dsimp only
          rw [erase_of_absent absent]

theorem length_insert_of_absent
    {key : α} (value : β) :
    ∀ {entries : List (α × β)},
      find? key entries = none →
        (insert key value entries).length = entries.length + 1
  | [], _ => rfl
  | (other, stored) :: rest, absent => by
      rw [insert]
      cases direction : compare key other with
      | lt => rfl
      | eq =>
          rw [find?, direction] at absent
          cases absent
      | gt =>
          rw [find?_cons_of_gt direction] at absent
          dsimp only
          rw [List.length_cons, length_insert_of_absent value absent,
            List.length_cons]

theorem length_insert_of_present
    {key : α} (value : β) :
    ∀ {entries : List (α × β)},
      (find? key entries).isSome = true →
        (insert key value entries).length = entries.length
  | (other, stored) :: rest, present => by
      rw [insert]
      cases direction : compare key other with
      | lt =>
          rw [find?_cons_of_lt direction] at present
          cases present
      | eq => rfl
      | gt =>
          rw [find?_cons_of_gt direction] at present
          dsimp only
          rw [List.length_cons, length_insert_of_present value present,
            List.length_cons]

theorem length_erase_of_present
    {key : α} :
    ∀ {entries : List (α × β)},
      (find? key entries).isSome = true →
        (erase key entries).length + 1 = entries.length
  | (other, stored) :: rest, present => by
      rw [erase]
      cases direction : compare key other with
      | lt =>
          rw [find?_cons_of_lt direction] at present
          cases present
      | eq => rfl
      | gt =>
          rw [find?_cons_of_gt direction] at present
          dsimp only
          rw [List.length_cons, length_erase_of_present present,
            List.length_cons]

/-! ## Entries by their keys -/

variable [LawfulEqOrd α]

@[simp]
theorem find?_cons_self
    (key : α) (value : β) (rest : List (α × β)) :
    find? key ((key, value) :: rest) = some value := by
  simp [find?, ReflOrd.compare_self]

theorem mem_of_find?_eq_some
    {key : α} {value : β} :
    ∀ {entries : List (α × β)},
      find? key entries = some value →
        (key, value) ∈ entries
  | [], found => by
      simp [find?] at found
  | (other, stored) :: rest, found => by
      rw [find?] at found
      split at found
      · cases found
      · rename_i equal
        cases found
        rw [LawfulEqOrd.eq_of_compare equal]
        exact List.mem_cons_self
      · exact List.mem_cons_of_mem _ (mem_of_find?_eq_some found)

theorem nodup_keys
    {entries : List (α × β)} (ascending : Ascending entries) :
    (entries.map (·.1)).Nodup := by
  refine List.pairwise_map.mpr (ascending.imp ?_)
  intro first second order equality
  rw [equality, ReflOrd.compare_self] at order
  cases order

@[simp]
theorem find?_insert_self
    (key : α) (value : β) :
    ∀ entries : List (α × β),
      find? key (insert key value entries) = some value
  | [] => find?_cons_self key value []
  | (other, stored) :: rest => by
      rw [insert]
      split
      · exact find?_cons_self key value _
      · exact find?_cons_self key value _
      · rename_i above
        rw [find?_cons_of_gt above]
        exact find?_insert_self key value rest

@[simp]
theorem find?_erase_self
    {key : α} {entries : List (α × β)}
    (ascending : Ascending entries) :
    find? key (erase key entries) = none := by
  induction entries with
  | nil => rfl
  | cons entry rest inductionHypothesis =>
      obtain ⟨other, stored⟩ := entry
      obtain ⟨least, restAscending⟩ := List.pairwise_cons.mp ascending
      rw [erase]
      split
      · rename_i below
        exact find?_cons_of_lt below
      · rename_i equal
        cases LawfulEqOrd.eq_of_compare equal
        exact find?_eq_none_of_below least
      · rename_i above
        rw [find?_cons_of_gt above]
        exact inductionHypothesis restAscending

/-- An insertion adds the parts of the new value and takes away those of the replaced one. -/
theorem length_flatMap_insert
    {γ : Type w} (parts : β → List γ) (key : α) (value : β) :
    ∀ entries : List (α × β),
      ((insert key value entries).flatMap (parts ·.2)).length +
          (((find? key entries).map parts).getD []).length =
        (entries.flatMap (parts ·.2)).length + (parts value).length
  | [] => by
      simp [insert, find?]
  | (other, stored) :: rest => by
      have later := length_flatMap_insert parts key value rest
      rw [insert]
      cases direction : compare key other with
      | lt =>
          rw [find?_cons_of_lt direction]
          simp only [List.flatMap_cons, List.length_append,
            Option.map_none, Option.getD_none, List.length_nil]
          omega
      | eq =>
          cases LawfulEqOrd.eq_of_compare direction
          rw [find?_cons_self]
          simp only [List.flatMap_cons, List.length_append,
            Option.map_some, Option.getD_some]
          omega
      | gt =>
          rw [find?_cons_of_gt direction]
          simp only [List.flatMap_cons, List.length_append]
          omega

theorem length_flatMap_erase
    {γ : Type w} (parts : β → List γ) (key : α) :
    ∀ entries : List (α × β),
      ((erase key entries).flatMap (parts ·.2)).length +
          (((find? key entries).map parts).getD []).length =
        (entries.flatMap (parts ·.2)).length
  | [] => rfl
  | (other, stored) :: rest => by
      have later := length_flatMap_erase parts key rest
      rw [erase]
      cases direction : compare key other with
      | lt =>
          rw [find?_cons_of_lt direction]
          rfl
      | eq =>
          cases LawfulEqOrd.eq_of_compare direction
          rw [find?_cons_self, List.flatMap_cons, List.length_append]
          exact Nat.add_comm _ _
      | gt =>
          rw [find?_cons_of_gt direction]
          simp only [List.flatMap_cons, List.length_append]
          omega

/-- Storing another value under a key that is stored changes no property that both values share. -/
theorem map_insert_of_present
    {γ : Type w} (property : α × β → γ) {key : α} {value old : β}
    (same : property (key, value) = property (key, old)) :
    ∀ {entries : List (α × β)}, find? key entries = some old →
      (insert key value entries).map property = entries.map property
  | (other, stored) :: rest, present => by
      rw [insert]
      cases direction : compare key other with
      | lt =>
          rw [find?_cons_of_lt direction] at present
          cases present
      | eq =>
          cases LawfulEqOrd.eq_of_compare direction
          rw [find?_cons_self] at present
          cases present
          dsimp only
          rw [List.map_cons, List.map_cons, same]
      | gt =>
          rw [find?_cons_of_gt direction] at present
          dsimp only
          rw [List.map_cons, map_insert_of_present property same present,
            List.map_cons]

/-- Lookups of lists that are related entry by entry are related. -/
theorem find?_rel_of_forall₂
    {γ : Type w} {relation : β → γ → Prop} (key : α) :
    ∀ {left : List (α × β)} {right : List (α × γ)},
      List.Forall₂
        (fun a b => a.1 = b.1 ∧ relation a.2 b.2) left right →
      Option.Rel relation (find? key left) (find? key right)
  | [], [], _ => Option.Rel.none
  | (first, a) :: left, (second, b) :: right, .cons head tail => by
      obtain ⟨sameKey, related⟩ := head
      cases sameKey
      cases direction : compare key first with
      | lt =>
          rw [find?_cons_of_lt direction, find?_cons_of_lt direction]
          exact Option.Rel.none
      | eq =>
          cases LawfulEqOrd.eq_of_compare direction
          rw [find?_cons_self, find?_cons_self]
          exact Option.Rel.some related
      | gt =>
          rw [find?_cons_of_gt direction, find?_cons_of_gt direction]
          exact find?_rel_of_forall₂ key tail

/-! ## Entries in order -/

variable [TransOrd α]

theorem find?_of_mem
    {key : α} {value : β} {entries : List (α × β)}
    (ascending : Ascending entries)
    (member : (key, value) ∈ entries) :
    find? key entries = some value := by
  induction entries with
  | nil => cases member
  | cons entry rest inductionHypothesis =>
      obtain ⟨other, stored⟩ := entry
      obtain ⟨least, restAscending⟩ := List.pairwise_cons.mp ascending
      rcases List.mem_cons.mp member with headEqual | tailMember
      · cases headEqual
        exact find?_cons_self key value rest
      · have above : compare key other = .gt :=
          OrientedCmp.gt_of_lt (least _ tailMember)
        rw [find?_cons_of_gt above]
        exact inductionHypothesis restAscending tailMember

theorem mem_iff_find?
    {key : α} {value : β} {entries : List (α × β)}
    (ascending : Ascending entries) :
    (key, value) ∈ entries ↔ find? key entries = some value :=
  ⟨find?_of_mem ascending, mem_of_find?_eq_some⟩

@[simp]
theorem find?_insert_of_ne
    {key other : α} (value : β) (different : other ≠ key) :
    ∀ entries : List (α × β),
      find? other (insert key value entries) = find? other entries
  | [] => by
      cases direction : compare other key with
      | lt => exact find?_cons_of_lt direction
      | eq => exact absurd (LawfulEqOrd.eq_of_compare direction) different
      | gt => exact find?_cons_of_gt direction
  | (head, stored) :: rest => by
      rw [insert]
      split
      · rename_i below
        cases direction : compare other key with
        | lt =>
            rw [find?_cons_of_lt direction,
              find?_cons_of_lt (TransCmp.lt_trans direction below)]
        | eq => exact absurd (LawfulEqOrd.eq_of_compare direction) different
        | gt => exact find?_cons_of_gt direction
      · rename_i equal
        cases LawfulEqOrd.eq_of_compare equal
        cases direction : compare other key with
        | lt => rw [find?_cons_of_lt direction, find?_cons_of_lt direction]
        | eq => exact absurd (LawfulEqOrd.eq_of_compare direction) different
        | gt => rw [find?_cons_of_gt direction, find?_cons_of_gt direction]
      · cases direction : compare other head with
        | lt => rw [find?_cons_of_lt direction, find?_cons_of_lt direction]
        | eq =>
            cases LawfulEqOrd.eq_of_compare direction
            rw [find?_cons_self, find?_cons_self]
        | gt =>
            rw [find?_cons_of_gt direction, find?_cons_of_gt direction]
            exact find?_insert_of_ne value different rest

theorem ascending_insert
    {key : α} (value : β) {entries : List (α × β)}
    (ascending : Ascending entries) :
    Ascending (insert key value entries) := by
  induction entries with
  | nil => exact List.pairwise_singleton _ _
  | cons entry rest inductionHypothesis =>
      obtain ⟨other, stored⟩ := entry
      obtain ⟨least, restAscending⟩ := List.pairwise_cons.mp ascending
      rw [insert]
      split
      · rename_i below
        refine List.pairwise_cons.mpr ⟨?_, ascending⟩
        intro later laterMember
        rcases List.mem_cons.mp laterMember with headEqual | tailMember
        · exact headEqual ▸ below
        · exact TransCmp.lt_trans below (least later tailMember)
      · rename_i equal
        cases LawfulEqOrd.eq_of_compare equal
        exact List.pairwise_cons.mpr ⟨least, restAscending⟩
      · rename_i above
        refine List.pairwise_cons.mpr
          ⟨?_, inductionHypothesis restAscending⟩
        intro later laterMember
        rcases mem_of_mem_insert laterMember with fresh | old
        · exact fresh ▸ OrientedCmp.lt_of_gt above
        · exact least later old

@[simp]
theorem find?_erase_of_ne
    {key other : α} (different : other ≠ key)
    {entries : List (α × β)} (ascending : Ascending entries) :
    find? other (erase key entries) = find? other entries := by
  induction entries with
  | nil => rfl
  | cons entry rest inductionHypothesis =>
      obtain ⟨head, stored⟩ := entry
      obtain ⟨least, restAscending⟩ := List.pairwise_cons.mp ascending
      rw [erase]
      split
      · rfl
      · rename_i equal
        cases LawfulEqOrd.eq_of_compare equal
        cases direction : compare other key with
        | lt =>
            rw [find?_cons_of_lt direction]
            refine find?_eq_none_of_below ?_
            intro later laterMember
            exact TransCmp.lt_trans direction (least later laterMember)
        | eq => exact absurd (LawfulEqOrd.eq_of_compare direction) different
        | gt => rw [find?_cons_of_gt direction]
      · cases direction : compare other head with
        | lt => rw [find?_cons_of_lt direction, find?_cons_of_lt direction]
        | eq =>
            cases LawfulEqOrd.eq_of_compare direction
            rw [find?_cons_self, find?_cons_self]
        | gt =>
            rw [find?_cons_of_gt direction, find?_cons_of_gt direction]
            exact inductionHypothesis restAscending

theorem find?_filter
    (keep : α × β → Bool) {key : α} {entries : List (α × β)}
    (ascending : Ascending entries) :
    find? key (entries.filter keep) =
      (find? key entries).filter fun value => keep (key, value) := by
  rw [Option.ext_iff]
  intro value
  rw [← mem_iff_find? (ascending_filter keep ascending), List.mem_filter,
    mem_iff_find? ascending, Option.filter_eq_some_iff]

/-- The values under a key are the one that is found there. -/
theorem filter_key
    [BEq α] [LawfulBEq α] {entries : List (α × β)}
    (ascending : Ascending entries) (key : α) :
    (entries.filter fun entry => entry.1 == key).map (·.2) =
      (find? key entries).toList := by
  induction entries with
  | nil => rfl
  | cons entry rest inductionHypothesis =>
      obtain ⟨other, value⟩ := entry
      obtain ⟨least, restAscending⟩ := List.pairwise_cons.mp ascending
      have later := inductionHypothesis restAscending
      cases direction : compare key other with
      | lt =>
          have absent : find? key rest = none :=
            find?_eq_none_of_below fun entry member =>
              TransCmp.lt_trans direction (least entry member)
          have different : ¬ other = key := by
            rintro rfl
            rw [ReflOrd.compare_self] at direction
            cases direction
          rw [List.filter_cons_of_neg (by simpa using different), later,
            absent, find?_cons_of_lt direction]
      | eq =>
          cases LawfulEqOrd.eq_of_compare direction
          rw [find?_eq_none_of_below least] at later
          rw [List.filter_cons_of_pos (by simp), List.map_cons, later,
            find?_cons_self]
          rfl
      | gt =>
          have different : ¬ other = key := by
            rintro rfl
            rw [ReflOrd.compare_self] at direction
            cases direction
          rw [List.filter_cons_of_neg (by simpa using different), later,
            find?_cons_of_gt direction]

/-- The entries under a key are the one that is found there. -/
theorem filter_key_eq
    [BEq α] [LawfulBEq α] {entries : List (α × β)}
    (ascending : Ascending entries) (key : α) :
    entries.filter (fun entry => entry.1 == key) =
      (find? key entries).toList.map fun value => (key, value) := by
  rw [← filter_key ascending key, List.map_map]
  symm
  refine (List.map_congr_left fun entry member => ?_).trans
    (List.map_id _)
  obtain ⟨_, named⟩ := List.mem_filter.mp member
  rw [← eq_of_beq named]
  rfl

/-- Of lists made from all entries, the parts for one key come from the value found there. -/
theorem flatMap_key
    {γ : Type w} [BEq α] [LawfulBEq α] {entries : List (α × β)}
    (ascending : Ascending entries) (key : α) (part : β → List γ) :
    (entries.flatMap fun entry =>
        if entry.1 == key then part entry.2 else []) =
      ((find? key entries).map part).getD [] := by
  have selected : (entries.flatMap fun entry =>
      if entry.1 == key then part entry.2 else []) =
        (entries.filter fun entry => entry.1 == key).flatMap
          fun entry => part entry.2 := by
    clear ascending
    induction entries with
    | nil => rfl
    | cons entry rest inductionHypothesis =>
        rw [List.flatMap_cons, inductionHypothesis, List.filter_cons]
        split
        · rw [List.flatMap_cons]
        · rfl
  rw [selected, filter_key_eq ascending]
  cases find? key entries with
  | none => rfl
  | some value => simp

/-- Changing and dropping values is seen at each key alone. -/
theorem find?_filterMap
    {γ : Type w} (change : α × β → Option γ) {key : α}
    {entries : List (α × β)} (ascending : Ascending entries) :
    find? key (entries.filterMap fun entry =>
        (change entry).map fun value => (entry.1, value)) =
      (find? key entries).bind fun value => change (key, value) := by
  rw [Option.ext_iff]
  intro value
  rw [← mem_iff_find? (ascending_filterMap change ascending),
    List.mem_filterMap, Option.bind_eq_some_iff]
  constructor
  · rintro ⟨⟨other, old⟩, member, changed⟩
    obtain ⟨_, isValue, equality⟩ := Option.map_eq_some_iff.mp changed
    cases equality
    exact ⟨old, find?_of_mem ascending member, isValue⟩
  · rintro ⟨old, found, isValue⟩
    exact ⟨(key, old), mem_of_find?_eq_some found,
      Option.map_eq_some_iff.mpr ⟨value, isValue, rfl⟩⟩

/-! ## Extensionality -/

/-- Lists in ascending order whose lookups are related entry by entry are themselves related
entry by entry. -/
theorem forall₂_of_find?
    {γ : Type w} (relation : β → γ → Prop) :
    ∀ {left : List (α × β)} {right : List (α × γ)},
      Ascending left →
      Ascending right →
      (∀ key, Option.Rel relation (find? key left) (find? key right)) →
      List.Forall₂
        (fun a b => a.1 = b.1 ∧ relation a.2 b.2) left right
  | [], [], _, _, _ => List.Forall₂.nil
  | [], (key, value) :: rest, _, _, related => by
      have absurdity := related key
      rw [find?_nil, find?_cons_self] at absurdity
      cases absurdity
  | (key, value) :: rest, [], _, _, related => by
      have absurdity := related key
      rw [find?_nil, find?_cons_self] at absurdity
      cases absurdity
  | (first, a) :: left, (second, b) :: right,
      leftAscending, rightAscending, related => by
      obtain ⟨leftLeast, leftRest⟩ := List.pairwise_cons.mp leftAscending
      obtain ⟨rightLeast, rightRest⟩ := List.pairwise_cons.mp rightAscending
      have sameKey : first = second := by
        cases direction : compare first second with
        | lt =>
            have absurdity := related first
            rw [find?_cons_self, find?_cons_of_lt direction] at absurdity
            cases absurdity
        | eq => exact LawfulEqOrd.eq_of_compare direction
        | gt =>
            have absurdity := related second
            rw [find?_cons_self,
              find?_cons_of_lt (OrientedCmp.lt_of_gt direction)] at absurdity
            cases absurdity
      subst sameKey
      have headRelated : relation a b := by
        have here := related first
        rw [find?_cons_self, find?_cons_self] at here
        cases here with
        | some holds => exact holds
      refine List.Forall₂.cons ⟨rfl, headRelated⟩ ?_
      refine forall₂_of_find? relation leftRest rightRest ?_
      intro key
      cases direction : compare key first with
      | lt =>
          have leftBelow : ∀ entry ∈ left, compare key entry.1 = .lt :=
            fun entry member => TransCmp.lt_trans direction (leftLeast entry member)
          have rightBelow : ∀ entry ∈ right, compare key entry.1 = .lt :=
            fun entry member => TransCmp.lt_trans direction (rightLeast entry member)
          rw [find?_eq_none_of_below leftBelow,
            find?_eq_none_of_below rightBelow]
          exact Option.Rel.none
      | eq =>
          cases LawfulEqOrd.eq_of_compare direction
          rw [find?_eq_none_of_below leftLeast,
            find?_eq_none_of_below rightLeast]
          exact Option.Rel.none
      | gt =>
          have here := related key
          rwa [find?_cons_of_gt direction,
            find?_cons_of_gt direction] at here

/-- Lists in ascending order with the same lookups are the same. -/
theorem eq_of_find?
    {left right : List (α × β)} (leftAscending : Ascending left)
    (rightAscending : Ascending right)
    (same : ∀ key, find? key left = find? key right) : left = right := by
  have related : List.Forall₂ (fun a b => a.1 = b.1 ∧ a.2 = b.2) left right := by
    refine forall₂_of_find? _ leftAscending rightAscending fun key => ?_
    rw [same key]
    cases find? key right with
    | none => exact .none
    | some _ => exact .some rfl
  rw [← List.forall₂_eq_eq_eq]
  exact related.imp fun _ _ equal => Prod.ext equal.1 equal.2

/-- Removing a key keeps the entries of all other keys. -/
theorem erase_eq_filter
    [BEq α] [LawfulBEq α] (key : α) {entries : List (α × β)}
    (ascending : Ascending entries) :
    erase key entries = entries.filter (·.1 != key) := by
  refine eq_of_find? (ascending_erase ascending)
    (ascending_filter _ ascending) fun other => ?_
  rw [find?_filter _ ascending]
  by_cases same : other = key
  · subst same
    rw [find?_erase_self ascending]
    cases find? other entries with
    | none => rfl
    | some value => simp [Option.filter]
  · rw [find?_erase_of_ne same ascending]
    cases find? other entries with
    | none => rfl
    | some value => simp [Option.filter, same]

theorem mem_insert_of_absent
    {key : α} (value : β) {entry : α × β} {entries : List (α × β)}
    (ascending : Ascending entries)
    (absent : ∀ other ∈ entries, other.1 ≠ key) :
    entry ∈ insert key value entries ↔
      entry = (key, value) ∨ entry ∈ entries := by
  refine ⟨mem_of_mem_insert, ?_⟩
  rintro (rfl | old)
  · exact mem_of_find?_eq_some (find?_insert_self key value entries)
  · refine mem_of_find?_eq_some ?_
    rw [find?_insert_of_ne value (absent entry old)]
    exact find?_of_mem ascending old

/-! ## Building -/

theorem ascending_foldl_insert
    {entries start : List (α × β)} (ascending : Ascending start) :
    Ascending (entries.foldl
      (fun map entry => insert entry.1 entry.2 map) start) := by
  induction entries generalizing start with
  | nil => exact ascending
  | cons entry rest inductionHypothesis =>
      exact inductionHypothesis (ascending_insert entry.2 ascending)

theorem ascending_ofList (entries : List (α × β)) :
    Ascending (ofList entries) :=
  ascending_foldl_insert List.Pairwise.nil

theorem find?_foldl_insert_of_absent
    {key : α} {entries start : List (α × β)}
    (absent : ∀ entry ∈ entries, key ≠ entry.1) :
    find? key (entries.foldl
      (fun map entry => insert entry.1 entry.2 map) start) =
      find? key start := by
  induction entries generalizing start with
  | nil => rfl
  | cons entry rest inductionHypothesis =>
      obtain ⟨first, others⟩ := List.forall_mem_cons.mp absent
      exact (inductionHypothesis others).trans
        (find?_insert_of_ne entry.2 first start)

/-- Of entries with distinct keys each one can be found. -/
theorem find?_ofList
    {entries : List (α × β)} (distinct : (entries.map (·.1)).Nodup)
    {entry : α × β} (member : entry ∈ entries) :
    find? entry.1 (ofList entries) = some entry.2 := by
  have found : ∀ start : List (α × β), find? entry.1 (entries.foldl
      (fun map entry => insert entry.1 entry.2 map) start) =
        some entry.2 := by
    induction entries with
    | nil => cases member
    | cons first rest inductionHypothesis =>
        intro start
        obtain ⟨notLater, restDistinct⟩ := List.nodup_cons.mp distinct
        rcases List.mem_cons.mp member with rfl | later
        · rw [List.foldl_cons, find?_foldl_insert_of_absent,
            find?_insert_self]
          intro other otherMember same
          have named : other.1 ∈ rest.map (·.1) :=
            List.mem_map_of_mem otherMember
          rw [← same] at named
          exact notLater named
        · exact inductionHypothesis restDistinct later _
  exact found []

/-- Arranging entries that are in order changes nothing. -/
theorem find?_ofList_of_ascending
    {entries : List (α × β)} (ascending : Ascending entries) (key : α) :
    find? key (ofList entries) = find? key entries := by
  cases found : find? key entries with
  | some value =>
      exact find?_ofList (nodup_keys ascending)
        (mem_of_find?_eq_some found)
  | none =>
      rw [Option.eq_none_iff_forall_ne_some]
      intro value arranged
      have member := mem_of_mem_ofList (mem_of_find?_eq_some arranged)
      rw [find?_of_mem ascending member] at found
      cases found

theorem ofList_of_ascending
    {entries : List (α × β)} (ascending : Ascending entries) :
    ofList entries = entries :=
  eq_of_find? (ascending_ofList entries) ascending
    (find?_ofList_of_ascending ascending)

/-- A list in ascending order is related entry by entry to any arrangement of related entries. -/
theorem forall₂_ofList
    {γ : Type w} {relation : β → γ → Prop} {left : List (α × β)}
    {entries : List (α × γ)} (ascending : Ascending left)
    (distinct : (entries.map (·.1)).Nodup)
    (covered : ∀ a ∈ left, ∃ b ∈ entries, b.1 = a.1)
    (related : ∀ b ∈ entries, ∃ a ∈ left, a.1 = b.1 ∧ relation a.2 b.2) :
    List.Forall₂ (fun a b => a.1 = b.1 ∧ relation a.2 b.2)
      left (ofList entries) := by
  refine forall₂_of_find? relation ascending (ascending_ofList entries)
    fun key => ?_
  cases found : find? key left with
  | none =>
      have absent : find? key (ofList entries) = none := by
        rw [Option.eq_none_iff_forall_ne_some]
        intro value foundRight
        obtain ⟨a, member, sameKey, _⟩ :=
          related _ (mem_of_mem_ofList (mem_of_find?_eq_some foundRight))
        have foundLeft := find?_of_mem ascending member
        rw [sameKey, found] at foundLeft
        cases foundLeft
      rw [absent]
      exact Option.Rel.none
  | some value =>
      obtain ⟨b, member, sameKey⟩ :=
        covered _ (mem_of_find?_eq_some found)
      obtain ⟨a, leftMember, leftKey, holds⟩ := related b member
      have foundLeft := find?_of_mem ascending leftMember
      rw [leftKey, sameKey, found] at foundLeft
      cases foundLeft
      have foundRight := find?_ofList distinct member
      rw [sameKey] at foundRight
      rw [foundRight]
      exact Option.Rel.some holds

end Replica.Sorted
