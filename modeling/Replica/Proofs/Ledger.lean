import Replica.Change.Ledger
import Replica.Proofs.Sorted
import Replica.Proofs.Node.Canonical

/-!
# Net changes

Changes that follow one another lead from some states of the children to others. The ledger
takes every such sequence, and what it holds in the end tells of every child how its state at the
end differs from its state at the beginning.
-/

namespace Replica

/-! ## Accurate changes -/

namespace Change

/-- A change tells how a child goes from one state to another. -/
inductive Accurate (key : Key) (old new : Node) : Change → Prop where
  | added {node : Node} (absent : old ≈ .empty)
      (present : new.isEmpty = false) (now : node ≈ new) :
      Accurate key old new (.added key node)
  | removed {before : Node} (present : old.isEmpty = false)
      (absent : new ≈ .empty) (was : before ≈ old) :
      Accurate key old new (.removed key before)
  | changed {node before : Node} (wasPresent : old.isEmpty = false)
      (present : new.isEmpty = false) (now : node ≈ new)
      (was : before ≈ old) :
      Accurate key old new (.changed key node before)

theorem Accurate.key?_eq
    {key : Key} {old new : Node} {change : Change}
    (accurate : Accurate key old new change) : change.key? = some key := by
  cases accurate <;> rfl

theorem Accurate.congr
    {key : Key} {old new otherOld otherNew : Node} {change : Change}
    (accurate : Accurate key old new change)
    (sameOld : old ≈ otherOld) (sameNew : new ≈ otherNew) :
    Accurate key otherOld otherNew change := by
  cases accurate with
  | added absent present now =>
      refine .added (Setoid.trans (Setoid.symm sameOld) absent) ?_
        (Setoid.trans now sameNew)
      rw [← Node.isEmpty_congr sameNew]
      exact present
  | removed present absent was =>
      refine .removed ?_ (Setoid.trans (Setoid.symm sameNew) absent)
        (Setoid.trans was sameOld)
      rw [← Node.isEmpty_congr sameOld]
      exact present
  | changed wasPresent present now was =>
      refine .changed ?_ ?_ (Setoid.trans now sameNew)
        (Setoid.trans was sameOld)
      · rw [← Node.isEmpty_congr sameOld]
        exact wasPresent
      · rw [← Node.isEmpty_congr sameNew]
        exact present

/-- Changes of children, one after the other, lead from some states to others. -/
inductive Leads : (Key → Node) → List Change → (Key → Node) → Prop where
  | done {before after : Key → Node}
      (same : ∀ key, key.isPriority = false → before key ≈ after key) :
      Leads before [] after
  | step {before after : Key → Node} {key : Key} {value : Node}
      {change : Change} {changes : List Change}
      (unreserved : key.isPriority = false)
      (accurate : change.Accurate key (before key) value)
      (rest : Leads (Function.update before key value) changes after) :
      Leads before (change :: changes) after

/-- Changes of different children lead from the states before to the states after, in any
order. -/
theorem Leads.of_distinct
    {before after : Key → Node} {changes : List Change}
    (distinct : changes.Pairwise fun a b => a.key? ≠ b.key?)
    (accurate : ∀ change ∈ changes, ∃ key : Key, key.isPriority = false ∧
      change.Accurate key (before key) (after key))
    (same : ∀ key : Key, key.isPriority = false →
      (∀ change ∈ changes, change.key? ≠ some key) →
        before key ≈ after key) :
    Leads before changes after := by
  induction changes generalizing before with
  | nil =>
      exact .done fun key unreserved =>
        same key unreserved fun _ member => absurd member List.not_mem_nil
  | cons change rest inductionHypothesis =>
      obtain ⟨apart, restDistinct⟩ := List.pairwise_cons.mp distinct
      obtain ⟨key, unreserved, first⟩ := accurate change List.mem_cons_self
      refine .step unreserved first (inductionHypothesis restDistinct ?_ ?_)
      · intro other member
        obtain ⟨otherKey, otherUnreserved, otherAccurate⟩ :=
          accurate other (List.mem_cons_of_mem change member)
        refine ⟨otherKey, otherUnreserved, ?_⟩
        have differs : otherKey ≠ key := by
          rintro rfl
          refine apart other member ?_
          rw [first.key?_eq, otherAccurate.key?_eq]
        rw [Function.update_of_ne differs]
        exact otherAccurate
      · intro other otherUnreserved untouched
        by_cases here : other = key
        · rw [here, Function.update_self]
        · rw [Function.update_of_ne here]
          refine same other otherUnreserved fun candidate member => ?_
          rcases List.mem_cons.mp member with rfl | later
          · rw [first.key?_eq]
            exact fun equality => here (Option.some.inj equality).symm
          · exact untouched candidate later

end Change

/-! ## The ledger -/

namespace Ledger

/-- The ledger holds one entry for each child that has changed, and tells what has changed. -/
structure Tracks (start now : Key → Node) (ledger : Ledger) : Prop where
  ascending : Sorted.Ascending ledger
  unreserved : ∀ entry ∈ ledger, entry.1.isPriority = false
  still : ∀ key : Key, key.isPriority = false →
    Sorted.find? key ledger = none → start key ≈ now key
  accurate : ∀ key change, Sorted.find? key ledger = some change →
    change.Accurate key (start key) (now key)

theorem Tracks.nil (states : Key → Node) : Tracks states states [] where
  ascending := List.Pairwise.nil
  unreserved := fun _ member => absurd member List.not_mem_nil
  still := fun _ _ _ => Setoid.refl _
  accurate := fun _ _ found => by cases found

theorem Tracks.congr
    {start now later : Key → Node} {ledger : Ledger}
    (tracks : Tracks start now ledger)
    (same : ∀ key : Key, key.isPriority = false → now key ≈ later key) :
    Tracks start later ledger where
  ascending := tracks.ascending
  unreserved := tracks.unreserved
  still := fun key unreserved absent =>
    Setoid.trans (tracks.still key unreserved absent) (same key unreserved)
  accurate := fun key change found =>
    (tracks.accurate key change found).congr (Setoid.refl _)
      (same key (tracks.unreserved _ (Sorted.mem_of_find?_eq_some found)))

theorem not_present_of_absent
    {node : Node} (absent : node ≈ .empty)
    (present : node.isEmpty = false) : False := by
  rw [Node.isEmpty_congr absent] at present
  cases present

/-- Two changes that follow each other have a sum, and it tells what both tell together. -/
theorem combine_accurate
    {key : Key} {first middle last : Node} {tracked incoming : Change}
    (accurate : tracked.Accurate key first middle)
    (further : incoming.Accurate key middle last) :
    ∃ net? : Option Change,
      combine key tracked incoming = .ok net? ∧
        match net? with
        | none => first ≈ last
        | some net => net.Accurate key first last := by
  cases accurate with
  | added absent present now =>
      cases further with
      | added stillAbsent _ _ =>
          exact absurd present fun contrary =>
            not_present_of_absent stillAbsent contrary
      | removed _ gone _ =>
          exact ⟨_, rfl, Setoid.trans absent (Setoid.symm gone)⟩
      | changed _ stillPresent newNode _ =>
          exact ⟨_, rfl, .added absent stillPresent newNode⟩
  | removed present absent was =>
      cases further with
      | added _ nowPresent newNode =>
          exact ⟨_, rfl, .changed present nowPresent newNode was⟩
      | removed stillPresent _ _ =>
          exact absurd stillPresent fun contrary =>
            not_present_of_absent absent contrary
      | changed stillPresent _ _ _ =>
          exact absurd stillPresent fun contrary =>
            not_present_of_absent absent contrary
  | changed wasPresent present now was =>
      cases further with
      | added absent _ _ =>
          exact absurd present fun contrary =>
            not_present_of_absent absent contrary
      | removed _ gone _ => exact ⟨_, rfl, .removed wasPresent gone was⟩
      | changed _ stillPresent newNode _ =>
          exact ⟨_, rfl, .changed wasPresent stillPresent newNode was⟩

private theorem Tracks.insert
    {start now : Key → Node} {ledger : Ledger}
    (tracks : Tracks start now ledger)
    {key : Key} (unreserved : key.isPriority = false)
    {change : Change} {value : Node}
    (accurate : change.Accurate key (start key) value) :
    Tracks start (Function.update now key value)
      (Sorted.insert key change ledger) where
  ascending := Sorted.ascending_insert change tracks.ascending
  unreserved := by
    intro entry member
    rcases Sorted.mem_of_mem_insert member with rfl | old
    · exact unreserved
    · exact tracks.unreserved entry old
  still := by
    intro other otherUnreserved absent
    by_cases here : other = key
    · rw [here, Sorted.find?_insert_self] at absent
      cases absent
    · rw [Sorted.find?_insert_of_ne change here] at absent
      rw [Function.update_of_ne here]
      exact tracks.still other otherUnreserved absent
  accurate := by
    intro other found isFound
    by_cases here : other = key
    · subst here
      rw [Sorted.find?_insert_self] at isFound
      cases isFound
      rw [Function.update_self]
      exact accurate
    · rw [Sorted.find?_insert_of_ne change here] at isFound
      rw [Function.update_of_ne here]
      exact tracks.accurate other found isFound

private theorem Tracks.erase
    {start now : Key → Node} {ledger : Ledger}
    (tracks : Tracks start now ledger)
    {key : Key} {value : Node} (same : start key ≈ value) :
    Tracks start (Function.update now key value)
      (Sorted.erase key ledger) where
  ascending := Sorted.ascending_erase tracks.ascending
  unreserved := fun entry member =>
    tracks.unreserved entry (Sorted.mem_of_mem_erase member)
  still := by
    intro other otherUnreserved absent
    by_cases here : other = key
    · rw [here, Function.update_self]
      exact same
    · rw [Sorted.find?_erase_of_ne here tracks.ascending] at absent
      rw [Function.update_of_ne here]
      exact tracks.still other otherUnreserved absent
  accurate := by
    intro other found isFound
    by_cases here : other = key
    · rw [here, Sorted.find?_erase_self tracks.ascending] at isFound
      cases isFound
    · rw [Sorted.find?_erase_of_ne here tracks.ascending] at isFound
      rw [Function.update_of_ne here]
      exact tracks.accurate other found isFound

theorem enter_of_untracked
    {ledger : Ledger} {key : Key} (unreserved : key.isPriority = false)
    (untracked : Sorted.find? key ledger = none) (change : Change) :
    ledger.enter key change = .ok (Sorted.insert key change ledger) := by
  rw [enter, if_neg (by simp [unreserved]), untracked]
  rfl

theorem enter_of_tracked
    {ledger : Ledger} {key : Key} (unreserved : key.isPriority = false)
    {tracked : Change}
    (found : Sorted.find? key ledger = some tracked) (change : Change) :
    ledger.enter key change =
      match combine key tracked change with
      | .ok (some net) => .ok (Sorted.insert key net ledger)
      | .ok none => .ok (Sorted.erase key ledger)
      | .error error => .error error := by
  rw [enter, if_neg (by simp [unreserved]), found]
  change (combine key tracked change >>= _) = _
  cases combine key tracked change with
  | error _ => rfl
  | ok net? => cases net? <;> rfl

/-- An accurate change can be entered. -/
theorem Tracks.record
    {start now : Key → Node} {ledger : Ledger}
    (tracks : Tracks start now ledger)
    {key : Key} (unreserved : key.isPriority = false)
    {change : Change} {value : Node}
    (accurate : change.Accurate key (now key) value) :
    ∃ next, ledger.record change = .ok next ∧
      Tracks start (Function.update now key value) next := by
  have entered : ledger.record change = ledger.enter key change := by
    cases accurate <;> rfl
  rw [entered]
  cases found : Sorted.find? key ledger with
  | none =>
      rw [enter_of_untracked unreserved found]
      exact ⟨_, rfl, tracks.insert unreserved
        (accurate.congr (Setoid.symm (tracks.still key unreserved found))
          (Setoid.refl _))⟩
  | some tracked =>
      obtain ⟨net?, combined, truth⟩ :=
        combine_accurate (tracks.accurate key tracked found) accurate
      rw [enter_of_tracked unreserved found, combined]
      cases net? with
      | none => exact ⟨_, rfl, tracks.erase truth⟩
      | some net => exact ⟨_, rfl, tracks.insert unreserved truth⟩

theorem recordAll_nil (ledger : Ledger) : ledger.recordAll [] = .ok ledger :=
  rfl

theorem recordAll_cons_of_ok
    {ledger next : Ledger} {change : Change}
    (recorded : ledger.record change = .ok next) (changes : List Change) :
    ledger.recordAll (change :: changes) = next.recordAll changes := by
  unfold recordAll
  rw [track, recorded]

/-- Changes that lead from the tracked states to others can be entered. -/
theorem Tracks.recordAll
    {start before after : Key → Node} {ledger : Ledger}
    (tracks : Tracks start before ledger)
    {changes : List Change} (leads : Change.Leads before changes after) :
    ∃ next, ledger.recordAll changes = .ok next ∧
      Tracks start after next := by
  induction leads generalizing ledger with
  | done same => exact ⟨ledger, recordAll_nil ledger, tracks.congr same⟩
  | step unreserved accurate _ inductionHypothesis =>
      obtain ⟨next, recorded, nextTracks⟩ := tracks.record unreserved accurate
      obtain ⟨last, all, lastTracks⟩ := inductionHypothesis nextTracks
      refine ⟨last, ?_, lastTracks⟩
      rw [recordAll_cons_of_ok recorded]
      exact all

end Ledger

end Replica
