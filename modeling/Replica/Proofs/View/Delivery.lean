import Mathlib
import Replica.Proofs.View.Mirror

/-!
# The order of delivery

The changes of a view come in no particular order. Their events are delivered kind by kind, within
a kind in the order of the query, and so in an order that depends on the changes alone. An event
names the sibling before the child in the new snapshot.
-/

namespace Replica

open Std

/-- The place of a kind in the order of delivery. -/
def ChangeKind.turn : ChangeKind → Nat
  | .removed => 0
  | .added => 1
  | .moved => 2
  | .changed => 3
  | .value => 4

namespace Change

/-- Changes as a view collects them: at most one for each child and one of the value, and no
moves. -/
structure Net (changes : List Change) : Prop where
  single : (changes.map Change.key?).Nodup
  unmoved : ∀ change ∈ changes, change.kind ≠ .moved

/-- What is told of changes: each of them that brings news, and a move with each change of data that
is news to the index. -/
inductive Told (index : Index) (changes : List Change) : Change → Prop where
  | made {change : Change} (member : change ∈ changes)
      (news : ∀ key node old, change = .changed key node old →
        node.same old = false) :
      Told index changes change
  | moved {key : Key} {node old : Node}
      (member : .changed key node old ∈ changes)
      (news : node.same old = false)
      (apart : index.orderNodes old node ≠ .eq) :
      Told index changes (.moved key node)

/-- One change is delivered before another one: its kind comes first, or the kinds are the same and
the index puts its child first. -/
def Before (index : Index) (first second : Change) : Prop :=
  first.kind.turn < second.kind.turn ∨
    first.kind = second.kind ∧
      ∃ key other, first.key? = some key ∧ second.key? = some other ∧
        index.order (key, first.node) (other, second.node) = .lt

private theorem Before.asymm
    {index : Index} {first second : Change}
    (before : Before index first second) :
    ¬ Before index second first := by
  rintro (later | ⟨_, other, key, isOther, isKey, behind⟩)
  · rcases before with earlier | ⟨same, _⟩
    · omega
    · rw [same] at later
      exact Nat.lt_irrefl _ later
  · rcases before with earlier | ⟨_, key', other', isKey', isOther', ahead⟩
    · rename_i same
      rw [same] at earlier
      exact Nat.lt_irrefl _ earlier
    · cases isKey.symm.trans isKey'
      cases isOther.symm.trans isOther'
      rw [OrientedCmp.gt_of_lt ahead] at behind
      cases behind

private theorem mem_arrange_iff_told
    {index : Index} {changes : List Change} {change : Change} :
    change ∈ arrange index changes ↔ Told index changes change := by
  rw [mem_arrange]
  constructor
  · rintro (⟨member, notVoid⟩ | ⟨told, member, notVoid, isMove⟩)
    · refine .made member fun key node old isChanged => ?_
      rw [isChanged] at notVoid
      exact notVoid
    · cases told with
      | changed key node old =>
          rw [move?] at isMove
          split at isMove
          · rename_i moves
            cases isMove
            exact .moved member notVoid (by simpa [Index.moves] using moves)
          · cases isMove
      | value _ => cases isMove
      | added _ _ => cases isMove
      | removed _ _ => cases isMove
      | moved _ _ => cases isMove
  · intro told
    cases told with
    | made member news =>
        refine .inl ⟨member, ?_⟩
        cases change with
        | changed key node old => exact news key node old rfl
        | value _ => rfl
        | added _ _ => rfl
        | removed _ _ => rfl
        | moved _ _ => rfl
    | @moved key node old member news apart =>
        refine .inr ⟨_, member, news, ?_⟩
        have moves : index.moves old node = true := by
          simpa [Index.moves] using apart
        rw [move?, moves, if_pos rfl]

/-! ## One kind -/

def sibling (change : Change) : Key × Node :=
  (change.key?.getD .least, change.node)

/-- Only the change of the value is not about a child. -/
theorem key?_eq_none_iff {change : Change} :
    change.key? = none ↔ change.kind = .value := by
  cases change with
  | value _ => exact iff_of_true rfl rfl
  | _ => exact iff_of_false nofun nofun

/-- Changes of one kind, at most one for each child and for the value, are sorted strictly. -/
theorem pairwise_mergeSort
    (index : Index) {kind : ChangeKind} {changes : List Change}
    (single : (changes.map Change.key?).Nodup)
    (ofKind : ∀ change ∈ changes, change.kind = kind) :
    (changes.mergeSort (atMost index)).Pairwise (Before index) := by
  have sortedKind : ∀ change ∈ changes.mergeSort (atMost index),
      change.kind = kind :=
    fun change member => ofKind change (List.mem_mergeSort.mp member)
  have apart : (changes.mergeSort (atMost index)).Pairwise
      fun first second => first.key? ≠ second.key? :=
    List.pairwise_map.mp
      ((((List.mergeSort_perm changes (atMost index)).map
        Change.key?).nodup_iff).mpr single)
  by_cases ofValue : kind = .value
  · -- There is one value at most.
    refine apart.imp_of_mem fun {first second} isFirst isSecond differ => ?_
    have keyless {change : Change} (isKind : change.kind = kind) :
        change.key? = none :=
      key?_eq_none_iff.mpr (isKind.trans ofValue)
    rw [keyless (sortedKind first isFirst),
      keyless (sortedKind second isSecond)] at differ
    exact absurd rfl differ
  · have keyed : ∀ change ∈ changes, ∃ key, change.key? = some key :=
      fun change member => Option.ne_none_iff_exists'.mp fun keyless =>
        ofValue ((ofKind change member).symm.trans
          (key?_eq_none_iff.mp keyless))
    have sorted : (changes.mergeSort (atMost index)).map sibling =
        index.sort (changes.map sibling) := by
      refine List.map_mergeSort fun first isFirst second isSecond => ?_
      obtain ⟨key, isKey⟩ := keyed first isFirst
      obtain ⟨other, isOther⟩ := keyed second isSecond
      rw [atMost, sibling, sibling, isKey, isOther]
      rfl
    have ordered := index.pairwise_sort (changes.map sibling)
    rw [← sorted, List.pairwise_map] at ordered
    refine (ordered.and apart).imp_of_mem
      fun {first second} isFirst isSecond both => .inr ?_
    obtain ⟨atMost, differ⟩ := both
    obtain ⟨key, isKey⟩ := keyed first (List.mem_mergeSort.mp isFirst)
    obtain ⟨other, isOther⟩ := keyed second (List.mem_mergeSort.mp isSecond)
    refine ⟨(sortedKind first isFirst).trans (sortedKind second isSecond).symm,
      key, other, isKey, isOther, ?_⟩
    rw [sibling, sibling, isKey, isOther] at atMost
    rw [isKey, isOther] at differ
    exact Index.order_eq_lt (fun same => differ (congrArg some same)) atMost

/-- A move is told of the child whose data changed. -/
theorem move?_eq_some
    {index : Index} {change moved : Change}
    (isMove : change.move? index = some moved) :
    moved.kind = .moved ∧ moved.key? = change.key? := by
  cases change with
  | changed key node old =>
      rw [move?] at isMove
      split at isMove
      · cases isMove
        exact ⟨rfl, rfl⟩
      · cases isMove
  | value _ => cases isMove
  | added _ _ => cases isMove
  | removed _ _ => cases isMove
  | moved _ _ => cases isMove

private theorem keys_moves_sublist (index : Index) (changes : List Change) :
    ((changes.filterMap (move? index)).map Change.key?).Sublist
      (changes.map Change.key?) := by
  induction changes with
  | nil => exact List.Sublist.slnil
  | cons change rest inductionHypothesis =>
      cases isMove : change.move? index with
      | none =>
          rw [List.filterMap_cons_none isMove]
          exact inductionHypothesis.cons _
      | some moved =>
          rw [List.filterMap_cons_some isMove, List.map_cons, List.map_cons,
            (move?_eq_some isMove).2]
          exact inductionHypothesis.cons_cons _

/-- Of each kind at most one change is told of a child. -/
theorem nodup_keys_of_kind
    (index : Index) {changes : List Change} (net : Net changes)
    (kind : ChangeKind) :
    let told := changes.filter (!·.isVoid)
    (((told ++ told.filterMap (move? index)).filter (·.kind == kind)).map
      Change.key?).Nodup := by
  intro told
  have toldKeys : (told.map Change.key?).Nodup :=
    net.single.sublist (List.filter_sublist.map _)
  rw [List.filter_append, List.map_append]
  by_cases ofMoves : kind = .moved
  · have unmoved : told.filter (·.kind == kind) = [] := by
      refine List.filter_eq_nil_iff.mpr fun change member => ?_
      have notMoved := net.unmoved change (List.mem_filter.mp member).1
      simpa [ofMoves] using notMoved
    rw [unmoved, List.map_nil, List.nil_append]
    exact toldKeys.sublist ((List.filter_sublist.map _).trans
      (keys_moves_sublist index told))
  · have moves : (told.filterMap (move? index)).filter (·.kind == kind) =
        [] := by
      refine List.filter_eq_nil_iff.mpr fun change member => ?_
      obtain ⟨_, _, isMove⟩ := List.mem_filterMap.mp member
      rw [(move?_eq_some isMove).1]
      simpa using Ne.symm ofMoves
    rw [moves, List.map_nil, List.append_nil]
    exact toldKeys.sublist (List.filter_sublist.map _)

/-- The changes that are told stand in the order of delivery. -/
theorem pairwise_arrange
    (index : Index) {changes : List Change} (net : Net changes) :
    (arrange index changes).Pairwise (Before index) := by
  have kinds : ChangeKind.all.Pairwise fun first second =>
      first.turn < second.turn := by
    decide
  rw [arrange, List.pairwise_flatMap]
  constructor
  · intro kind _
    refine @pairwise_mergeSort index kind _
      (nodup_keys_of_kind index net kind) fun change member => ?_
    simpa using (List.mem_filter.mp member).2
  · refine kinds.imp fun {first second} earlier change isFirst other isSecond =>
      .inl ?_
    have firstKind : change.kind = first := by
      simpa using (List.mem_filter.mp (List.mem_mergeSort.mp isFirst)).2
    have secondKind : other.kind = second := by
      simpa using (List.mem_filter.mp (List.mem_mergeSort.mp isSecond)).2
    rw [firstKind, secondKind]
    exact earlier

/-- The order of delivery does not depend on the order in which the changes come. -/
theorem arrange_of_perm
    (index : Index) {changes others : List Change} (net : Net changes)
    (perm : changes.Perm others) :
    arrange index others = arrange index changes := by
  have othersNet : Net others :=
    ⟨(perm.map Change.key?).nodup_iff.mp net.single,
      fun change member => net.unmoved change (perm.mem_iff.mpr member)⟩
  have sorted := pairwise_arrange index net
  have othersSorted := pairwise_arrange index othersNet
  have distinct {all : List Change} (ordered : all.Pairwise (Before index)) :
      all.Nodup :=
    ordered.imp fun {first second} before same => by
      rw [same] at before
      exact before.asymm before
  have sameMembers : (arrange index others).Perm (arrange index changes) := by
    refine (List.perm_ext_iff_of_nodup (distinct othersSorted)
      (distinct sorted)).mpr fun change => ?_
    simp only [mem_arrange, perm.mem_iff]
  exact sameMembers.eq_of_pairwise
    (fun first second _ _ before after => absurd after before.asymm)
    othersSorted sorted

end Change

/-! ## The sibling before a child -/

/-- In an order of siblings, the one before a child is the last one in front of it. -/
theorem Index.before?_append
    {key : Key} {ahead : List (Key × Node)}
    (absent : ∀ entry ∈ ahead, entry.1 ≠ key)
    (child : Node) (behind : List (Key × Node)) :
    Index.before? key (ahead ++ (key, child) :: behind) =
      ahead.getLast?.map (·.1) := by
  induction ahead with
  | nil =>
      cases behind with
      | nil => rfl
      | cons _ _ => exact if_pos rfl
  | cons first rest inductionHypothesis =>
      obtain ⟨notFirst, notRest⟩ := List.forall_mem_cons.mp absent
      cases rest with
      | nil =>
          refine (if_neg notFirst).trans (if_pos rfl)
      | cons second others =>
          have notSecond := (List.forall_mem_cons.mp notRest).1
          refine (if_neg notFirst).trans ((if_neg notSecond).trans ?_)
          exact inductionHypothesis notRest

/-- The key of the greatest child strictly below a sibling under an index, or none if there is no
child below it. -/
inductive Node.Preceding (node : Node) (index : Index)
    (sibling : Key × Node) : Option Key → Prop where
  | none (least : ∀ entry ∈ node.children,
        index.order entry sibling ≠ .lt) :
      Preceding node index sibling none
  | some {other : Key × Node} (member : other ∈ node.children)
      (below : index.order other sibling = .lt)
      (greatest : ∀ entry ∈ node.children,
        index.order entry sibling = .lt →
          (index.order entry other).isLE = true) :
      Preceding node index sibling (some other.1)

private theorem Node.preceding_predecessor?
    {node : Node} (canonical : node.Canonical) (index : Index)
    {key : Key} {child : Node} (member : (key, child) ∈ node.children) :
    node.Preceding index (key, child) (node.predecessor? key index) := by
  have mem_sorted {entry : Key × Node} :
      entry ∈ node.sorted index ↔ entry ∈ node.children :=
    (Index.perm_sorted node index).mem_iff
  have ordered := Index.strict_sorted canonical index
  obtain ⟨ahead, behind, split⟩ :=
    List.mem_iff_append.mp (mem_sorted.mpr member)
  rw [split, List.pairwise_append, List.pairwise_cons] at ordered
  obtain ⟨aheadOrdered, ⟨isLeast, _⟩, across⟩ := ordered
  have aheadBelow (entry : Key × Node) (isAhead : entry ∈ ahead) :
      index.order entry (key, child) = .lt :=
    across entry isAhead _ List.mem_cons_self
  have tie (entry : Key × Node) : index.order entry entry = .eq :=
    ReflCmp.compare_self
  have absent : ∀ entry ∈ ahead, entry.1 ≠ key := by
    intro entry isAhead same
    have isChild : entry ∈ node.sorted index := by
      rw [split]
      exact List.mem_append_left _ isAhead
    have below := aheadBelow entry isAhead
    rw [eq_of_mem_children canonical (mem_sorted.mp isChild) member same, tie]
      at below
    cases below
  -- What is strictly below the child stands in front of it.
  have isAhead : ∀ entry ∈ node.children,
      index.order entry (key, child) = .lt → entry ∈ ahead := by
    intro entry isChild below
    have placed := mem_sorted.mpr isChild
    rw [split] at placed
    rcases List.mem_append.mp placed with here | later
    · exact here
    · rcases List.mem_cons.mp later with rfl | isBehind
      · rw [tie] at below
        cases below
      · rw [OrientedCmp.gt_of_lt (isLeast entry isBehind)] at below
        cases below
  rw [predecessor?, split, Index.before?_append absent]
  rcases List.eq_nil_or_concat ahead with rfl | ⟨others, last, rfl⟩
  · exact .none fun entry isChild below =>
      absurd (isAhead entry isChild below) List.not_mem_nil
  · rw [List.concat_eq_append] at *
    have isLast : last ∈ others ++ [last] := List.mem_append_right _
      (List.mem_singleton_self last)
    rw [List.getLast?_concat, Option.map_some]
    refine .some (mem_sorted.mp ?_) (aheadBelow last isLast)
      fun entry isChild below => ?_
    · rw [split]
      exact List.mem_append_left _ isLast
    · rcases List.mem_append.mp (isAhead entry isChild below) with
        earlier | isLast
      · exact Ordering.isLE_of_eq_lt ((List.pairwise_append.mp
          aheadOrdered).2.2 entry earlier last (List.mem_singleton_self last))
      · rw [List.mem_singleton.mp isLast]
        exact Ordering.isLE_of_eq_eq (tie last)

/-! ## The events -/

/-- The events of changes do not depend on the order in which these come. They are those of what is
told of the changes: a move comes with a change of data to which the index is not indifferent, and
data that are the same are not told. The kinds follow one another, and within a kind the children
are strictly ascending. Each change that is told gives one event to each registration that wants its
kind, in the order of registration. An addition, move or change of a child of the snapshot names the
greatest child strictly below it. -/
theorem Event.ofChanges_delivers
    (path : Path) (index : Index)
    {changes : List Change} (net : Change.Net changes)
    {snap : Node} (canonical : snap.Canonical)
    (registrations : List Registration) :
    ∃ told : List Change,
      told.Pairwise (Change.Before index) ∧
        (∀ change, change ∈ told ↔ Change.Told index changes change) ∧
        Event.ofChanges path index changes snap registrations =
          told.flatMap (fun change =>
            (registrations.filter fun registration =>
                registration.kinds.contains change.kind).map
              fun registration =>
                { kind := change.kind
                  listener := registration.id
                  path := path
                  key? := change.key?
                  node := change.node
                  previous? := change.previous? index snap }) ∧
        (∀ change ∈ told, change.kind ≠ .removed →
          ∀ key child, change.key? = some key →
            (key, child) ∈ snap.children →
              snap.Preceding index (key, child)
                (change.previous? index snap)) ∧
        ∀ others, changes.Perm others →
          Event.ofChanges path index others snap registrations =
            Event.ofChanges path index changes snap registrations := by
  refine ⟨Change.arrange index changes, Change.pairwise_arrange index net,
    fun change => Change.mem_arrange_iff_told, rfl, ?_, ?_⟩
  · intro change _ notRemoved key child isKey member
    have preceding := Node.preceding_predecessor? canonical index member
    cases change with
    | removed _ _ => exact absurd rfl notRemoved
    | value _ => cases isKey
    | added _ _ =>
        cases isKey
        exact preceding
    | changed _ _ _ =>
        cases isKey
        exact preceding
    | moved _ _ =>
        cases isKey
        exact preceding
  · intro others perm
    rw [Event.ofChanges, Event.ofChanges,
      Change.arrange_of_perm index net perm]

def Node.alike : Node :=
  .branch
    [(⟨"a"⟩, .ofScalar (.bool true)), (⟨"b"⟩, .ofScalar (.bool true)),
      (⟨"c"⟩, .ofScalar (.bool true))] none

/-- A child that loses its priority, the value, an addition, a child with other data, one with the
same, and a removal. -/
def Change.mixed : List Change :=
  [.changed ⟨"a"⟩ (.ofScalar (.bool true))
      (.leaf (.bool true) (some (.text "p"))),
    .value .alike,
    .added ⟨"c"⟩ (.ofScalar (.bool true)),
    .changed ⟨"b"⟩ (.ofScalar (.bool true)) (.ofScalar (.bool false)),
    .changed ⟨"d"⟩ .empty .empty,
    .removed ⟨"e"⟩ (.ofScalar (.bool true))]

theorem Event.ofChanges_delivers_mixed :
    let registrations := [.all 2, ⟨1, [.moved, .value]⟩]
    let events (changes : List Change) := Event.ofChanges [⟨"v"⟩] .priority
      changes .alike registrations
    events Change.mixed.reverse = events Change.mixed ∧
      (events Change.mixed).map (fun event =>
          (event.kind, event.listener, event.key?, event.previous?)) =
        [(.removed, 2, some ⟨"e"⟩, none),
          (.added, 2, some ⟨"c"⟩, some ⟨"b"⟩),
          (.moved, 2, some ⟨"a"⟩, none), (.moved, 1, some ⟨"a"⟩, none),
          (.changed, 2, some ⟨"a"⟩, none),
          (.changed, 2, some ⟨"b"⟩, some ⟨"a"⟩),
          (.value, 2, none, none), (.value, 1, none, none)] := by
  intro registrations events
  have net : Change.Net Change.mixed :=
    ⟨by decide, by simp [Change.mixed, Change.kind]⟩
  have childCanonical := Node.Canonical.ofScalar (.bool true)
  have canonical : Node.alike.Canonical :=
    ((Node.Canonical.empty.setDescendant childCanonical
      [⟨"a"⟩]).setDescendant childCanonical [⟨"b"⟩]).setDescendant
      childCanonical [⟨"c"⟩]
  obtain ⟨_, _, _, _, _, permuted⟩ :=
    ofChanges_delivers [⟨"v"⟩] .priority net canonical registrations
  refine ⟨permuted _ (List.reverse_perm _).symm, ?_⟩
  simp only [events, registrations]
  cbv

end Replica
