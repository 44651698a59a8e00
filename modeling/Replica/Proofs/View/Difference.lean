import Mathlib
import Replica.Proofs.View.Basic

/-!
# What an update reports

An operation on the caches of a view can always be applied, whatever the caches hold. Of the
changes it reports, those that say something are exactly the differences of the two visible
snapshots, one for each child that is another one; and the whole value is reported exactly when
the new snapshot is complete and was not shown before.
-/

namespace Replica

/-! ## The difference of two states -/

namespace Change

/-- The change from one state of a child to another, if they are not the same. -/
def between? (key : Key) (old new : Node) : Option Change :=
  if old.same new then none
  else if old.isEmpty then some (.added key new)
  else if new.isEmpty then some (.removed key old)
  else some (.changed key new old)

/-- Two changes tell the same of one child: they are of one kind and carry the same nodes. -/
inductive Alike : Change → Change → Prop where
  | added {key : Key} {node other : Node} (same : node ≈ other) :
      Alike (.added key node) (.added key other)
  | removed {key : Key} {old other : Node} (same : old ≈ other) :
      Alike (.removed key old) (.removed key other)
  | changed {key : Key} {node other old otherOld : Node}
      (same : node ≈ other) (sameOld : old ≈ otherOld) :
      Alike (.changed key node old) (.changed key other otherOld)

/-- Whether a change says something new about the child under a key. -/
def tells (key : Key) (change : Change) : Bool :=
  !change.isVoid && change.key? == some key

theorem between?_of_same
    {key : Key} {old new : Node} (same : old ≈ new) :
    between? key old new = none :=
  if_pos (Node.equiv_iff.mp same)

/-- Unless it is void, an accurate change is the change between the two states. -/
theorem Accurate.between?
    {key : Key} {old new : Node} {change : Change}
    (accurate : change.Accurate key old new) :
    List.Forall₂ Alike ([change].filter (!·.isVoid))
      (Change.between? key old new).toList := by
  cases accurate with
  | @added node absent present now =>
      have apart : ¬ old.same new = true := fun same => by
        rw [← Node.isEmpty_congr (Node.equiv_iff.mpr same),
          Node.isEmpty_congr absent] at present
        cases present
      have wasEmpty : old.isEmpty = true := by
        rw [Node.isEmpty_congr absent]
        rfl
      rw [Change.between?, if_neg apart, if_pos wasEmpty]
      exact .cons (.added now) .nil
  | @removed before present absent was =>
      have isEmpty : new.isEmpty = true := by
        rw [Node.isEmpty_congr absent]
        rfl
      have apart : ¬ old.same new = true := fun same => by
        rw [Node.isEmpty_congr (Node.equiv_iff.mpr same), isEmpty] at present
        cases present
      rw [Change.between?, if_neg apart, if_neg (by simp [present]),
        if_pos isEmpty]
      exact .cons (.removed was) .nil
  | @changed node before wasPresent present now was =>
      by_cases same : old ≈ new
      · have void : node.same before = true :=
          Setoid.trans now (Setoid.symm (Setoid.trans was same))
        rw [between?_of_same same]
        simp [isVoid, void]
      · have apart : ¬ old.same new = true := same
        have told : ¬ node.same before = true := fun void =>
          same (Setoid.trans (Setoid.symm was)
            (Setoid.trans (Setoid.symm (Node.equiv_iff.mpr void)) now))
        rw [Change.between?, if_neg apart, if_neg (by simp [wasPresent]),
          if_neg (by simp [present])]
        simpa [isVoid, told] using Alike.changed now was

end Change

/-! ## The ledger -/

namespace Ledger

section

variable {start now : Key → Node} {ledger : Ledger}
  (tracks : Tracks start now ledger)

include tracks

private theorem Tracks.key?_eq
    {entry : Key × Change} (member : entry ∈ ledger) :
    entry.2.key? = some entry.1 :=
  (tracks.accurate entry.1 entry.2
    (Sorted.find?_of_mem tracks.ascending member)).key?_eq

theorem Tracks.accurate_of_mem_changes
    {change : Change} (member : change ∈ ledger.changes) :
    ∃ key : Key, key.isPriority = false ∧
      change.Accurate key (start key) (now key) := by
  obtain ⟨entry, entryMember, rfl⟩ := List.mem_map.mp member
  exact ⟨entry.1, tracks.unreserved entry entryMember,
    tracks.accurate entry.1 entry.2
      (Sorted.find?_of_mem tracks.ascending entryMember)⟩

/-- Of each child the ledger tells the change between its two states, and nothing else. -/
theorem Tracks.tells
    {key : Key} (unreserved : key.isPriority = false) :
    List.Forall₂ Change.Alike (ledger.changes.filter (Change.tells key))
      (Change.between? key (start key) (now key)).toList := by
  have split :
      ledger.changes.filter (Change.tells key) =
        (Sorted.find? key ledger).toList.filter (!·.isVoid) := by
    rw [← Sorted.filter_key tracks.ascending key, changes, List.filter_map,
      List.filter_map, List.filter_filter]
    refine congrArg (List.map _) (List.filter_congr fun entry member => ?_)
    simp only [Function.comp_apply, Change.tells, tracks.key?_eq member]
    rfl
  rw [split]
  cases found : Sorted.find? key ledger with
  | none =>
      rw [Change.between?_of_same (tracks.still key unreserved found)]
      exact .nil
  | some change => exact (tracks.accurate key change found).between?

end

end Ledger

/-! ## The report of an update -/

/-- The changes that say something are the differences of two visible caches. -/
structure Change.Reports (old new : Cache) (changes : List Change) : Prop where
  /-- A child that is another one is reported once, with its nodes, and no other child is. -/
  children : ∀ key : Key, key.isPriority = false →
    List.Forall₂ Change.Alike (changes.filter (Change.tells key))
      (Change.between? key (old.node.child key) (new.node.child key)).toList
  /-- No change concerns the priority as if it were a child. -/
  unreserved : ∀ change ∈ changes, ∀ key ∈ change.key?, key.isPriority = false
  /-- No move is reported. -/
  unmoved : ∀ change ∈ changes, change.kind ≠ .moved
  /-- The whole value is reported once, and only where it is complete and was not shown. -/
  value : changes.filter (·.kind == .value) =
    if new.complete && (!old.complete || !old.node.same new.node) then
      [.value new.node]
    else []

namespace Change

private theorem ofValue_eq (old new : Cache) :
    ofValue old new =
      if new.complete && (!old.complete || !old.node.same new.node) then
        [.value new.node]
      else [] := by
  unfold ofValue
  cases complete : new.complete with
  | true => rw [Cache.complete?_of_complete complete, Bool.true_and]
  | false =>
      rw [Cache.complete?_of_incomplete complete, Bool.false_and]
      rfl

private theorem eq_value_of_mem_ofValue
    {old new : Cache} {change : Change} (member : change ∈ ofValue old new) :
    change = .value new.node := by
  rw [ofValue_eq] at member
  split at member
  · exact List.mem_singleton.mp member
  · cases member

private theorem Accurate.kind_ne
    {key : Key} {old new : Node} {change : Change}
    (accurate : change.Accurate key old new) :
    change.kind ≠ .moved ∧ change.kind ≠ .value := by
  cases accurate <;> exact ⟨nofun, nofun⟩

/-- The net changes of the children and the change of the value report two visible caches. -/
theorem Reports.of_tracks
    {old new : Cache} {ledger : Ledger}
    (tracks : Ledger.Tracks old.node.child new.node.child ledger) :
    Reports old new (ledger.changes ++ ofValue old new) := by
  refine ⟨?_, ?_, ?_, ?_⟩
  · intro key unreserved
    have silent : (ofValue old new).filter (tells key) = [] := by
      refine List.filter_eq_nil_iff.mpr fun change member => ?_
      rw [eq_value_of_mem_ofValue member]
      exact nofun
    rw [List.filter_append, silent, List.append_nil]
    exact tracks.tells unreserved
  · intro change member key named
    rcases List.mem_append.mp member with entry | whole
    · obtain ⟨other, unreserved, accurate⟩ :=
        tracks.accurate_of_mem_changes entry
      rw [accurate.key?_eq] at named
      cases named
      exact unreserved
    · rw [eq_value_of_mem_ofValue whole] at named
      cases named
  · intro change member
    rcases List.mem_append.mp member with entry | whole
    · obtain ⟨_, _, accurate⟩ := tracks.accurate_of_mem_changes entry
      exact accurate.kind_ne.1
    · rw [eq_value_of_mem_ofValue whole]
      exact nofun
  · have silent :
        ledger.changes.filter (·.kind == .value) = [] := by
      refine List.filter_eq_nil_iff.mpr fun change member => ?_
      obtain ⟨_, _, accurate⟩ := tracks.accurate_of_mem_changes member
      simpa using accurate.kind_ne.2
    have kept :
        (ofValue old new).filter (·.kind == .value) = ofValue old new := by
      refine List.filter_eq_self.mpr fun change member => ?_
      rw [eq_value_of_mem_ofValue member]
      rfl
    rw [List.filter_append, silent, List.nil_append, kept, ofValue_eq]

/-- Of two caches that show the same, nothing is reported that says something, unless the new one
has become complete. -/
theorem Reports.void
    {old new : Cache} {changes : List Change}
    (reports : Reports old new changes) (same : old.node ≈ new.node)
    (complete : new.complete = true → old.complete = true) :
    ∀ change ∈ changes, change.isVoid = true := by
  intro change member
  by_contra told
  cases named : change.key? with
  | some key =>
      have tidings :=
        reports.children key (reports.unreserved change member key named)
      rw [between?_of_same (Node.child_congr same key)] at tidings
      have tellsKey : tells key change = true := by
        unfold tells
        rw [named]
        simpa using told
      have silent := List.forall₂_nil_right_iff.mp tidings
      exact List.filter_eq_nil_iff.mp silent change member tellsKey
  | none =>
      have silent : changes.filter (·.kind == .value) = [] := by
        rw [reports.value, Node.equiv_iff.mp same]
        exact if_neg (by simpa using complete)
      refine List.filter_eq_nil_iff.mp silent change member ?_
      cases change with
      | value node => rfl
      | added _ _ => cases named
      | removed _ _ => cases named
      | changed _ _ _ => cases named
      | moved _ _ => cases named

end Change

private theorem Event.ofChanges_of_void
    {changes : List Change} (void : ∀ change ∈ changes, change.isVoid = true)
    (path : Path) (index : Index) (snap : Node)
    (registrations : List Registration) :
    ofChanges path index changes snap registrations = [] := by
  have told : changes.filter (!·.isVoid) = [] := by
    refine List.filter_eq_nil_iff.mpr fun change member => ?_
    rw [void change member]
    exact Bool.false_ne_true
  unfold ofChanges Change.arrange
  rw [told]
  simp

/-- A view that shows after an operation what it showed before tells nothing, unless what it shows
has become complete. -/
theorem View.Sound.silent
    {view : View} {path : Path} (sound : view.Sound path)
    {vantage : Vantage} (pendingSound : vantage.pending.Sound)
    {ancestor? : Option Node}
    (ancestorCanonical : ∀ ancestor ∈ ancestor?, ancestor.Canonical)
    {operation : Operation} (valid : operation.Valid)
    (complete :
      (view.after operation vantage ancestor?).caches.visible.complete =
        true → view.caches.visible.complete = true)
    (same : view.caches.visible.node ≈
      (view.after operation vantage ancestor?).caches.visible.node)
    {told : List Event} {next : View}
    (applied : view.apply operation vantage ancestor? =
      .ok (told, next)) : told = [] := by
  obtain ⟨ledger, isApplied, accounts⟩ :=
    sound.apply_ok pendingSound ancestorCanonical valid
  rw [isApplied] at applied
  cases applied
  exact Event.ofChanges_of_void
    ((Change.Reports.of_tracks accounts.tracks).void same complete) _ _ _ _

namespace Caches

/-- Whatever a selection keeps and whatever the caches of a view hold, an operation can be
applied, and what it reports is the difference of the two visible caches. -/
theorem apply_reports
    {caches : Caches} {selection : Selection} {operation : Operation}
    {vantage : Vantage} {ancestor? : Option Node}
    (canonical : caches.Canonical) (valid : operation.Valid)
    (sound : vantage.pending.Sound)
    (ancestorCanonical : ∀ ancestor ∈ ancestor?, ancestor.Canonical) :
    ∃ update,
      caches.apply selection.filter operation vantage ancestor? =
        .ok update ∧
      Change.Reports caches.visible update.caches.visible update.changes := by
  obtain ⟨ledger, applied, accounts⟩ :=
    apply_ok sound canonical ancestorCanonical valid selection.filter
  exact ⟨_, applied, .of_tracks accounts.tracks⟩

def twoChildren : Node :=
  .branch [(⟨"a"⟩, .ofScalar (.bool true)), (⟨"b"⟩, .ofScalar (.bool false))]
    none

def firstOfTwo : Caches :=
  let cache : Cache :=
    ⟨.branch [(⟨"a"⟩, .ofScalar (.bool true))] none, true, true⟩
  ⟨cache, cache⟩

/-- Where a window loses its only child, that child, the next one that slides in and the new
value are reported. -/
theorem apply_reports_slide :
    let selection : Selection := { index := .key, limit? := some (.first 1) }
    ∃ update,
      firstOfTwo.apply selection.filter (.overwrite .server [⟨"a"⟩] .empty)
          ⟨{}, []⟩ (some twoChildren) = .ok update ∧
        Change.Reports firstOfTwo.visible update.caches.visible
          update.changes ∧
        update.changes.map (fun change => (change.kind, change.key?)) =
          [(.removed, some ⟨"a"⟩), (.added, some ⟨"b"⟩), (.value, none)] := by
  intro selection
  have shown :
      (Node.branch [(⟨"a"⟩, .ofScalar (.bool true))] none).Canonical :=
    Node.Canonical.empty.setChild (Node.Canonical.ofScalar (.bool true)) ⟨"a"⟩
  have known : twoChildren.Canonical :=
    shown.setChild (Node.Canonical.ofScalar (.bool false)) ⟨"b"⟩
  have untouched : ({} : Pending).Sound :=
    ⟨fun _ member => absurd member List.not_mem_nil, rfl⟩
  obtain ⟨update, applied, reports⟩ :=
    @apply_reports firstOfTwo selection
      (.overwrite .server [⟨"a"⟩] .empty) ⟨{}, []⟩ (some twoChildren)
      ⟨shown, shown⟩ Node.Canonical.empty untouched fun _ member => by
        cases member
        exact known
  have evaluated :
      (firstOfTwo.apply selection.filter
          (.overwrite .server [⟨"a"⟩] .empty) ⟨{}, []⟩
          (some twoChildren)).toOption.map
        (fun update =>
          update.changes.map fun change => (change.kind, change.key?)) =
        some
          [(.removed, some ⟨"a"⟩), (.added, some ⟨"b"⟩), (.value, none)] := by
    cbv
  rw [applied] at evaluated
  exact ⟨update, applied, reports, Option.some.inj evaluated⟩

end Caches

end Replica
