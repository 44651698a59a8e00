import Replica.Proofs.Ledger

/-!
# Net changes, to the very node

When every change tells the child as it is before it, the ledger takes all of them. In the end it
holds one change for each child that was touched, from the node with which the child began to the
one with which it ends, and none for a child that is absent at both ends. A change that cannot
follow what is held is refused, and the ledger stays as it is.
-/

namespace Replica

/-! ## States of children -/

/-- The children at one moment: absent, or with a node. -/
abbrev ChildStates := Key → Option Node

namespace Change

/-- A change turns children as they are into children as they will be. Removals and changes of data
carry the node that is there before. -/
inductive Turns : ChildStates → Change → ChildStates → Prop where
  | added {before : ChildStates} {key : Key} {node : Node}
      (unreserved : key.isPriority = false)
      (absent : before key = none) :
      Turns before (.added key node)
        (Function.update before key (some node))
  | removed {before : ChildStates} {key : Key} {old : Node}
      (unreserved : key.isPriority = false)
      (present : before key = some old) :
      Turns before (.removed key old) (Function.update before key none)
  | changed {before : ChildStates} {key : Key} {node old : Node}
      (unreserved : key.isPriority = false)
      (present : before key = some old) :
      Turns before (.changed key node old)
        (Function.update before key (some node))

/-- Changes, each of which turns the children that the one before it left. -/
inductive Run : ChildStates → List Change → ChildStates → Prop where
  | done {states : ChildStates} : Run states [] states
  | step {first next last : ChildStates} {change : Change}
      {changes : List Change} (turns : Turns first change next)
      (rest : Run next changes last) : Run first (change :: changes) last

/-- The change from one state of a child to another. -/
def net? (key : Key) : Option Node → Option Node → Option Change
  | none, none => none
  | none, some node => some (.added key node)
  | some old, none => some (.removed key old)
  | some old, some node => some (.changed key node old)

private theorem net?_eq_none_iff {key : Key} {before after : Option Node} :
    net? key before after = none ↔ before = none ∧ after = none := by
  cases before <;> cases after <;> simp [net?]

end Change

/-! ## Kinds that follow each other -/

/-- Whether a child is there after a change of a kind that concerns its data. -/
def ChangeKind.leaves? : ChangeKind → Option Bool
  | .added | .changed => some true
  | .removed => some false
  | .moved | .value => none

/-- Whether a child has to be there before a change of a kind that concerns its data. -/
def ChangeKind.finds? : ChangeKind → Option Bool
  | .added => some false
  | .removed | .changed => some true
  | .moved | .value => none

/-- A change of the second kind can follow one of the first: it finds the child as the other one
leaves it. -/
def ChangeKind.Precedes (tracked incoming : ChangeKind) : Prop :=
  ∃ there, tracked.leaves? = some there ∧ incoming.finds? = some there

namespace Ledger

/-! ## Runs of changes -/

/-- The ledger holds what changes come to: for a child that they touch the change from its first
state to its last one, and for any other child nothing. -/
structure Nets (first last : ChildStates) (changes : List Change)
    (ledger : Ledger) : Prop where
  ascending : Sorted.Ascending ledger
  touched : ∀ key : Key,
    (∃ change ∈ changes, change.key? = some key) →
      Sorted.find? key ledger = Change.net? key (first key) (last key)
  untouched : ∀ key : Key,
    (∀ change ∈ changes, change.key? ≠ some key) →
      Sorted.find? key ledger = none ∧ first key = last key

private theorem Nets.nil (states : ChildStates) : Nets states states [] [] where
  ascending := List.Pairwise.nil
  touched := fun _ touched => by
    obtain ⟨_, member, _⟩ := touched
    cases member
  untouched := fun _ _ => ⟨rfl, rfl⟩

variable {first now last : ChildStates} {changes : List Change}
  {ledger : Ledger}

/-- A child of which the ledger holds nothing is as it was in the beginning. -/
theorem Nets.still
    (nets : Nets first now changes ledger) {key : Key}
    (untracked : Sorted.find? key ledger = none) : first key = now key := by
  by_cases touched : ∃ change ∈ changes, change.key? = some key
  · have nothing := (nets.touched key touched).symm.trans untracked
    obtain ⟨absent, stillAbsent⟩ := Change.net?_eq_none_iff.mp nothing
    rw [absent, stillAbsent]
  · exact (nets.untouched key fun change member named =>
      touched ⟨change, member, named⟩).2

/-- What the ledger holds of a child is the change from its first state. -/
theorem Nets.tracked
    (nets : Nets first now changes ledger) {key : Key} {tracked : Change}
    (found : Sorted.find? key ledger = some tracked) :
    Change.net? key (first key) (now key) = some tracked := by
  by_cases touched : ∃ change ∈ changes, change.key? = some key
  · exact (nets.touched key touched).symm.trans found
  · have nothing := (nets.untouched key fun change member named =>
      touched ⟨change, member, named⟩).1
    rw [found] at nothing
    cases nothing

/-- After a further change of one child the ledger holds something else of that child only. -/
theorem Nets.further
    (nets : Nets first now changes ledger) {key : Key}
    {change : Change} (named : change.key? = some key)
    {state : Option Node} {next : Ledger}
    (ascending : Sorted.Ascending next)
    (here : Sorted.find? key next = Change.net? key (first key) state)
    (elsewhere : ∀ other, other ≠ key →
      Sorted.find? other next = Sorted.find? other ledger) :
    Nets first (Function.update now key state) (changes ++ [change])
      next := by
  refine ⟨ascending, fun other touched => ?_, fun other untouched => ?_⟩
  · by_cases same : other = key
    · rw [same, Function.update_self]
      exact here
    · rw [elsewhere other same, Function.update_of_ne same]
      refine nets.touched other ?_
      obtain ⟨candidate, member, isNamed⟩ := touched
      rcases List.mem_append.mp member with earlier | isLast
      · exact ⟨candidate, earlier, isNamed⟩
      · rw [List.mem_singleton.mp isLast, named] at isNamed
        exact absurd (Option.some.inj isNamed).symm same
  · obtain ⟨earlier, isOther⟩ := List.forall_mem_append.mp untouched
    have different : other ≠ key := fun same =>
      isOther change (List.mem_singleton_self change) (same ▸ named)
    rw [elsewhere other different, Function.update_of_ne different]
    exact nets.untouched other earlier

/-- A change that tells the child as it is can be entered if it has a sum with what is held of
that child, or is itself the change from the first state. -/
theorem Nets.enter
    (nets : Nets first now changes ledger) {key : Key}
    (unreserved : key.isPriority = false) {change : Change}
    (named : change.key? = some key) {state : Option Node}
    (fresh : first key = now key →
      Change.net? key (first key) state = some change)
    (merged : ∀ tracked,
      Change.net? key (first key) (now key) = some tracked →
        combine key tracked change =
          .ok (Change.net? key (first key) state)) :
    ∃ next, ledger.enter key change = .ok next ∧
      Nets first (Function.update now key state) (changes ++ [change])
        next := by
  have inserted (net : Change)
      (isNet : Change.net? key (first key) state = some net) :
      Nets first (Function.update now key state) (changes ++ [change])
        (Sorted.insert key net ledger) :=
    nets.further named (Sorted.ascending_insert net nets.ascending)
      (by rw [Sorted.find?_insert_self, isNet])
      fun _ different => Sorted.find?_insert_of_ne net different ledger
  cases found : Sorted.find? key ledger with
  | none =>
      exact ⟨_, enter_of_untracked unreserved found change,
        inserted change (fresh (nets.still found))⟩
  | some tracked =>
      rw [enter_of_tracked unreserved found,
        merged tracked (nets.tracked found)]
      cases net : Change.net? key (first key) state with
      | none =>
          exact ⟨_, rfl, nets.further named
            (Sorted.ascending_erase nets.ascending)
            (by rw [Sorted.find?_erase_self nets.ascending, net])
            fun _ different =>
              Sorted.find?_erase_of_ne different nets.ascending⟩
      | some sum => exact ⟨_, rfl, inserted sum net⟩

/-- A change that turns the children is recorded. -/
theorem Nets.record
    (nets : Nets first now changes ledger) {change : Change}
    {next : ChildStates} (turns : Change.Turns now change next) :
    ∃ after, ledger.record change = .ok after ∧
      Nets first next (changes ++ [change]) after := by
  cases turns with
  | @added key node unreserved absent =>
      refine nets.enter unreserved rfl (fun still => ?_) fun tracked => ?_
      · rw [still, absent]
        rfl
      · rw [absent]
        cases first key with
        | none => exact nofun
        | some _ =>
            rintro ⟨⟩
            rfl
  | @removed key old unreserved present =>
      refine nets.enter unreserved rfl (fun still => ?_) fun tracked => ?_
      · rw [still, present]
        rfl
      · rw [present]
        cases first key with
        | none =>
            rintro ⟨⟩
            rfl
        | some _ =>
            rintro ⟨⟩
            rfl
  | @changed key node old unreserved present =>
      refine nets.enter unreserved rfl (fun still => ?_) fun tracked => ?_
      · rw [still, present]
        rfl
      · rw [present]
        cases first key with
        | none =>
            rintro ⟨⟩
            rfl
        | some _ =>
            rintro ⟨⟩
            rfl

/-- Every run of changes is recorded. -/
theorem Nets.recordAll
    (nets : Nets first now changes ledger) {further : List Change}
    (run : Change.Run now further last) :
    ∃ net, ledger.recordAll further = .ok net ∧
      Nets first last (changes ++ further) net := by
  induction run generalizing changes ledger with
  | done =>
      rw [List.append_nil]
      exact ⟨ledger, recordAll_nil ledger, nets⟩
  | @step _ _ _ change rest turns _ inductionHypothesis =>
      obtain ⟨next, recorded, nextNets⟩ := nets.record turns
      obtain ⟨net, all, netNets⟩ := inductionHypothesis nextNets
      rw [recordAll_cons_of_ok recorded]
      rw [List.append_assoc] at netNets
      exact ⟨net, all, netNets⟩

/-! ## Refused changes -/

/-- Why a change is refused. -/
inductive Refuses (ledger : Ledger) : Change → SyncError → Prop where
  | value (node : Node) : Refuses ledger (.value node) (.untrackable .value)
  | moved (key : Key) (node : Node) :
      Refuses ledger (.moved key node) (.untrackable (.move key))
  | priority {change : Change}
      (concernsData : change.kind.finds?.isSome = true)
      {key : Key} (named : change.key? = some key)
      (reserved : key.isPriority = true) :
      Refuses ledger change (.untrackable .priority)
  | transition {change : Change}
      (concernsData : change.kind.finds?.isSome = true)
      {key : Key} (named : change.key? = some key)
      (unreserved : key.isPriority = false) {tracked : Change}
      (found : Sorted.find? key ledger = some tracked)
      (apart : ¬ tracked.kind.Precedes change.kind) :
      Refuses ledger change (.transition key tracked.kind change.kind)

private theorem combine_of_precedes
    (key : Key) {tracked incoming : Change}
    (precedes : tracked.kind.Precedes incoming.kind) :
    ∃ net?, combine key tracked incoming = .ok net? := by
  obtain ⟨there, left, found⟩ := precedes
  cases tracked <;> cases left <;> cases incoming <;> cases found <;>
    exact ⟨_, rfl⟩

private theorem combine_of_not_precedes
    (key : Key) {tracked incoming : Change}
    (apart : ¬ tracked.kind.Precedes incoming.kind) :
    combine key tracked incoming =
      .error (.transition key tracked.kind incoming.kind) := by
  have follows (there : Bool) (left : tracked.kind.leaves? = some there)
      (found : incoming.kind.finds? = some there) :
      combine key tracked incoming =
        .error (.transition key tracked.kind incoming.kind) :=
    absurd ⟨there, left, found⟩ apart
  cases tracked with
  | added _ _ =>
      cases incoming with
      | removed _ _ => exact follows true rfl rfl
      | changed _ _ _ => exact follows true rfl rfl
      | _ => rfl
  | removed _ _ =>
      cases incoming with
      | added _ _ => exact follows false rfl rfl
      | _ => rfl
  | changed _ _ _ =>
      cases incoming with
      | removed _ _ => exact follows true rfl rfl
      | changed _ _ _ => exact follows true rfl rfl
      | _ => rfl
  | moved _ _ => rfl
  | value _ => rfl

/-- A change of the data of a child is entered under its key. -/
theorem record_eq_enter
    {change : Change} (concernsData : change.kind.finds?.isSome = true) :
    ∃ key, change.key? = some key ∧
      ledger.record change = ledger.enter key change := by
  cases change with
  | value _ => cases concernsData
  | moved _ _ => cases concernsData
  | added key _ => exact ⟨key, rfl, rfl⟩
  | removed key _ => exact ⟨key, rfl, rfl⟩
  | changed key _ _ => exact ⟨key, rfl, rfl⟩

private theorem enter_eq_error_iff
    {change : Change} (concernsData : change.kind.finds?.isSome = true)
    {key : Key} (named : change.key? = some key) {error : SyncError} :
    ledger.enter key change = .error error ↔
      ledger.Refuses change error := by
  cases reserved : key.isPriority with
  | true =>
      have refused :
          ledger.enter key change = .error (.untrackable .priority) := by
        rw [enter, if_pos reserved]
        rfl
      rw [refused]
      constructor
      · rintro ⟨⟩
        exact .priority concernsData named reserved
      · intro refuses
        cases refuses with
        | value _ => cases named
        | moved _ _ => cases concernsData
        | priority _ _ _ => rfl
        | transition _ otherNamed unreserved _ _ =>
            rw [named] at otherNamed
            cases otherNamed
            rw [reserved] at unreserved
            cases unreserved
  | false =>
      have isTransition (refuses : ledger.Refuses change error) :
          ∃ tracked, Sorted.find? key ledger = some tracked ∧
            ¬ tracked.kind.Precedes change.kind ∧
            error = .transition key tracked.kind change.kind := by
        cases refuses with
        | value _ => cases named
        | moved _ _ => cases concernsData
        | priority _ otherNamed otherReserved =>
            rw [named] at otherNamed
            cases otherNamed
            rw [reserved] at otherReserved
            cases otherReserved
        | transition _ otherNamed _ found apart =>
            rw [named] at otherNamed
            cases otherNamed
            exact ⟨_, found, apart, rfl⟩
      cases found : Sorted.find? key ledger with
      | none =>
          rw [enter_of_untracked reserved found]
          refine ⟨fun failed => ?_, fun refuses => ?_⟩
          · cases failed
          · obtain ⟨_, isFound, _⟩ := isTransition refuses
            rw [found] at isFound
            cases isFound
      | some tracked =>
          rw [enter_of_tracked reserved found]
          by_cases precedes : tracked.kind.Precedes change.kind
          · obtain ⟨net?, combined⟩ := combine_of_precedes key precedes
            rw [combined]
            constructor
            · intro failed
              cases net? <;> cases failed
            · intro refuses
              obtain ⟨_, isFound, apart, _⟩ := isTransition refuses
              cases found.symm.trans isFound
              exact absurd precedes apart
          · rw [combine_of_not_precedes key precedes]
            constructor
            · rintro ⟨⟩
              exact .transition concernsData named reserved found precedes
            · intro refuses
              obtain ⟨_, isFound, _, rfl⟩ := isTransition refuses
              cases found.symm.trans isFound
              rfl

/-- A change is refused exactly for one of the causes. -/
theorem record_eq_error_iff {change : Change} {error : SyncError} :
    ledger.record change = .error error ↔ ledger.Refuses change error := by
  by_cases concernsData : change.kind.finds?.isSome = true
  · obtain ⟨key, named, isEntered⟩ :=
      @record_eq_enter ledger _ concernsData
    rw [isEntered]
    exact enter_eq_error_iff concernsData named
  · have isSole {sole : SyncError} (isRefused : ledger.record change =
          .error sole)
        (refuses : ledger.Refuses change sole)
        (onlyThat : ledger.Refuses change error → error = sole) :
        ledger.record change = .error error ↔
          ledger.Refuses change error := by
      rw [isRefused]
      constructor
      · rintro ⟨⟩
        exact refuses
      · exact fun other => by rw [onlyThat other]
    cases change with
    | value node =>
        refine isSole rfl (.value node) fun refuses => ?_
        cases refuses with
        | value _ => rfl
        | priority wrong _ _ => cases wrong
        | transition wrong _ _ _ _ => cases wrong
    | moved key node =>
        refine isSole rfl (.moved key node) fun refuses => ?_
        cases refuses with
        | moved _ _ => rfl
        | priority wrong _ _ => cases wrong
        | transition wrong _ _ _ _ => cases wrong
    | added _ _ => exact absurd rfl concernsData
    | removed _ _ => exact absurd rfl concernsData
    | changed _ _ _ => exact absurd rfl concernsData

/-- The ledger takes every run of changes, and holds what they come to. It refuses a change exactly
if it does not concern the data of a child, concerns the priority, or cannot follow what the ledger
holds of that child. A refused change leaves the ledger as it is. -/
theorem runs_net_out
    {changes : List Change} (run : Change.Run first changes last) :
    (∃ net, recordAll [] changes = .ok net ∧
      Nets first last changes net) ∧
    ∀ (held : Ledger) (change : Change) (error : SyncError),
      (held.record change = .error error ↔ held.Refuses change error) ∧
      (held.Refuses change error → ∀ rest : List Change,
        held.track (change :: rest) = (held, some error)) := by
  refine ⟨(Nets.nil first).recordAll run, fun held change error =>
    ⟨record_eq_error_iff, fun refuses rest => ?_⟩⟩
  rw [track, record_eq_error_iff.mpr refuses]

def oneChild : ChildStates :=
  Function.update (fun _ => none) ⟨"a"⟩ (some (.ofScalar (.bool true)))

/-- The child is exchanged for another node, and in between another child comes and changes. -/
def exchange : List Change :=
  [.removed ⟨"a"⟩ (.ofScalar (.bool true)),
    .added ⟨"b"⟩ (.ofScalar (.bool true)),
    .added ⟨"a"⟩ (.ofScalar (.bool false)),
    .changed ⟨"b"⟩ (.ofScalar (.bool false)) (.ofScalar (.bool true))]

/-- Of four changes two are left, and neither of the children can be added once more. -/
theorem runs_net_out_interleaved :
    ∃ net, recordAll [] exchange = .ok net ∧
      Sorted.find? ⟨"a"⟩ net = some (.changed ⟨"a"⟩
        (.ofScalar (.bool false)) (.ofScalar (.bool true))) ∧
      Sorted.find? ⟨"b"⟩ net =
        some (.added ⟨"b"⟩ (.ofScalar (.bool false))) ∧
      net.track [.added ⟨"b"⟩ (.ofScalar (.bool true))] =
        (net, some (.transition ⟨"b"⟩ .added .added)) := by
  obtain ⟨⟨net, recorded, nets⟩, refusals⟩ :=
    @runs_net_out oneChild _ exchange
      (.step (.removed rfl rfl) (.step (.added rfl rfl)
        (.step (.added rfl rfl) (.step (.changed rfl rfl) .done))))
  have first := nets.touched ⟨"a"⟩ ⟨_, List.mem_cons_self, rfl⟩
  have second := nets.touched ⟨"b"⟩
    ⟨_, List.mem_cons_of_mem _ List.mem_cons_self, rfl⟩
  have refuses : net.Refuses (.added ⟨"b"⟩ (.ofScalar (.bool true)))
      (.transition ⟨"b"⟩ .added .added) :=
    .transition rfl rfl rfl second (by rintro ⟨_, ⟨⟩, ⟨⟩⟩)
  exact ⟨net, recorded, first, second, (refusals _ _ _).2 refuses []⟩

/-! ## Changes of different children -/

/-- Changes of the data of different children, of which nothing is held yet, are held as they
are. -/
theorem recordAll_of_distinct
    {changes : List Change} {ledger : Ledger}
    (distinct : changes.Pairwise fun change other =>
      change.key? ≠ other.key?)
    (fresh : ∀ change ∈ changes, change.kind.finds?.isSome = true ∧
      ∃ key : Key, change.key? = some key ∧ key.isPriority = false ∧
        Sorted.find? key ledger = none) :
    ∃ net, ledger.recordAll changes = .ok net ∧
      ∀ key, Sorted.find? key net =
        (changes.find? (·.key? == some key)).or
          (Sorted.find? key ledger) := by
  induction changes generalizing ledger with
  | nil => exact ⟨ledger, recordAll_nil ledger, fun _ => rfl⟩
  | cons change rest inductionHypothesis =>
      obtain ⟨apart, restDistinct⟩ := List.pairwise_cons.mp distinct
      obtain ⟨⟨concernsData, key, named, unreserved, untracked⟩, restFresh⟩ :=
        List.forall_mem_cons.mp fresh
      have recorded :
          ledger.record change = .ok (Sorted.insert key change ledger) := by
        obtain ⟨other, otherNamed, entered⟩ :=
          @record_eq_enter ledger _ concernsData
        rw [named] at otherNamed
        cases otherNamed
        rw [entered, enter_of_untracked unreserved untracked]
      obtain ⟨net, all, finds⟩ := @inductionHypothesis
        (Sorted.insert key change ledger) restDistinct
        fun other member => by
          obtain ⟨otherData, otherKey, otherNamed, otherUnreserved, absent⟩ :=
            restFresh other member
          have different : otherKey ≠ key := fun same =>
            apart other member (by rw [named, otherNamed, same])
          refine ⟨otherData, otherKey, otherNamed, otherUnreserved, ?_⟩
          rw [Sorted.find?_insert_of_ne change different, absent]
      rw [recordAll_cons_of_ok recorded]
      refine ⟨net, all, fun other => ?_⟩
      rw [finds other, List.find?_cons]
      by_cases here : other = key
      · have untouched :
            rest.find? (·.key? == some key) = none := by
          refine List.find?_eq_none.mpr fun later member isNamed => ?_
          exact apart later member (named.trans (eq_of_beq isNamed).symm)
        rw [here, untouched, Sorted.find?_insert_self, named,
          BEq.rfl]
        rfl
      · have elsewhere : (change.key? == some other) = false := by
          rw [named]
          exact beq_eq_false_iff_ne.mpr fun same =>
            here (Option.some.inj same).symm
        rw [Sorted.find?_insert_of_ne change here, elsewhere]

end Ledger

end Replica
