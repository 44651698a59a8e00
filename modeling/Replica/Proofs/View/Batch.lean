import Replica.Proofs.Filter.Waiting
import Replica.Proofs.Node.Children
import Replica.Proofs.View.Confined
import Replica.Proofs.View.Difference

/-!
# Children replaced one after the other

The filter of a selection with bounds or a limit can take a list of children one by one, in any
order, or the whole node that has them all. Both come to the same snapshot. On the way a window
holds old children beside new ones, and children that have left it come back; what holds all along
is that the filter is settled on every child but those still to come.
-/

namespace Replica

open Std

namespace Window

/-! ## Asking for one sibling after the other -/

/-- The first known sibling behind another one. -/
def after? (window : Window) (known : Node) (post : Key × Node) :
    Option (Key × Node) :=
  (window.arrange known).find? fun candidate =>
    window.order candidate post == .gt

/-- Whoever asks for one known sibling after the other, passing over the one under the given key
and those that the snapshot holds, comes to an end, and to this result. -/
inductive Finds (window : Window) (snap known : Node) (key : Key) :
    Key × Node → Option (Key × Node) → Prop where
  | over {post : Key × Node} (nothing : window.after? known post = none) :
      Finds window snap known key post none
  | found {post next : Key × Node}
      (isNext : window.after? known post = some next)
      (different : next.1 ≠ key) (outside : snap.hasChild next.1 = false) :
      Finds window snap known key post (some next)
  | passed {post next : Key × Node} {result : Option (Key × Node)}
      (isNext : window.after? known post = some next)
      (unfit : next.1 = key ∨ snap.hasChild next.1 = true)
      (rest : Finds window snap known key next result) :
      Finds window snap known key post result

variable {window : Window} {snap known : Node} {key : Key}

/-- Of the arranged siblings those in front have been passed already. -/
private theorem finds_of_split
    (canonical : known.Canonical) {last post : Key × Node}
    {ahead behind : List (Key × Node)}
    (split : window.arrange known = ahead ++ behind)
    (notAfter : ∀ entry ∈ ahead, window.order entry post ≠ .gt)
    (same : ∀ entry ∈ behind,
      window.order entry post = window.order entry last) :
    window.Finds snap known key post (behind.find? fun candidate =>
      window.order candidate last == .gt && candidate.1 != key &&
        !snap.hasChild candidate.1) := by
  induction behind generalizing ahead post with
  | nil =>
      refine .over (List.find?_eq_none.mpr fun entry member isGt => ?_)
      rw [split, List.append_nil] at member
      exact notAfter entry member (beq_iff_eq.mp isGt)
  | cons next rest inductionHypothesis =>
      have sorted := strict_arrange canonical window
      rw [split] at sorted
      obtain ⟨_, later, across⟩ := List.pairwise_append.mp sorted
      have nextSplit := split.trans (List.append_cons ahead next rest)
      have sameNext := same next List.mem_cons_self
      have isNext (isAfter : window.order next last = .gt) :
          window.after? known post = some next := by
        refine List.find?_eq_some_iff_append.mpr
          ⟨beq_iff_eq.mpr (sameNext.trans isAfter), ahead, rest, split,
            fun entry member => ?_⟩
        simpa using notAfter entry member
      have passes {asked : Key × Node}
          (before : ∀ entry ∈ ahead, window.order entry asked ≠ .gt)
          (notNext : window.order next asked ≠ .gt) :
          ∀ entry ∈ ahead ++ [next], window.order entry asked ≠ .gt :=
        List.forall_mem_append.mpr
          ⟨before, List.forall_mem_singleton.mpr notNext⟩
      cases chosen : window.order next last == .gt && next.1 != key &&
          !snap.hasChild next.1 with
      | true =>
          simp only [List.find?_cons, chosen]
          simp only [Bool.and_eq_true, beq_iff_eq, bne_iff_ne,
            Bool.not_eq_true'] at chosen
          exact .found (isNext chosen.1.1) chosen.1.2 chosen.2
      | false =>
          simp only [List.find?_cons, chosen]
          by_cases isAfter : window.order next last = .gt
          · have isBehind (entry : Key × Node) (member : entry ∈ rest) :
                window.order entry next = .gt :=
              OrientedCmp.gt_of_lt
                ((List.pairwise_cons.mp later).1 entry member)
            have tie : window.order next next = .eq := ReflCmp.compare_self
            refine .passed (isNext isAfter)
              (by simpa [isAfter, or_iff_not_imp_left] using chosen)
              (inductionHypothesis nextSplit (passes (fun entry member => ?_)
                (by rw [tie]; nofun)) fun entry member =>
                  (isBehind entry member).trans
                    (TransCmp.gt_trans (isBehind entry member) isAfter).symm)
            rw [across entry member next List.mem_cons_self]
            nofun
          · rw [← sameNext] at isAfter
            exact inductionHypothesis nextSplit (passes notAfter isAfter)
              fun entry member => same entry (List.mem_cons_of_mem next member)

private theorem finds_next?
    (canonical : known.Canonical) (window : Window) (snap : Node)
    (last : Key × Node) (key : Key) :
    window.Finds snap known key last (window.next? snap known last key) :=
  finds_of_split canonical (List.nil_append _).symm
    (fun _ member => absurd member List.not_mem_nil) fun _ _ => rfl

end Window

def Limit.fromEnd : Limit → Bool
  | .first _ => false
  | .last _ => true

namespace Vantage

variable {vantage : Vantage} {server? : Option Node}

/-- Asked for the sibling behind another one, the pending writes answer with the one that a window
over what they know takes for the next. -/
theorem next?_eq_after? (window : Window) (post : Key × Node) :
    vantage.next? server? post window.limit.fromEnd window.range.index =
      window.after? (vantage.known server?) post := by
  unfold next? Window.after? Window.arrange Window.order
  cases window.limit with
  | first _ => rfl
  | last _ =>
      refine (if_pos rfl).trans ?_
      congr 1
      funext candidate
      rw [Bool.eq_iff_iff, beq_iff_eq, beq_iff_eq]
      exact OrientedCmp.gt_iff_lt.symm

/-- Asked again and again, they come to the sibling that slides into the window. -/
theorem finds_next?_known
    (sound : vantage.pending.Sound)
    (canonical : ∀ server ∈ server?, server.Canonical) (window : Window)
    (snap : Node) (last : Key × Node) (key : Key) :
    window.Finds snap (vantage.known server?) key last
      (window.next? snap (vantage.known server?) last key) :=
  Window.finds_next? (canonical_known sound canonical) window snap last key

end Vantage

/-! ## One child after the other -/

/-- Takes children one after the other, where the children of a node are known. -/
def Filter.setChildren (filter : Filter) (known : Node)
    (entries : List (Key × Node)) (start : Progress) :
    Except SyncError Progress :=
  entries.foldlM
    (fun progress entry =>
      progress.take (filter.setChild progress.node entry.1 entry.2 known))
    start

namespace Selection

/-- Children of a node have been taken, and others are still to come. -/
structure Underway (selection : Selection) (start target : Node)
    (pending : List (Key × Node)) (progress : Progress) : Prop where
  sound : progress.Sound start
  confines : selection.Confines progress.node
  settled : ∀ key : Key, key.isPriority = false →
    key ∉ pending.map (·.1) →
      selection.filter.Settled progress.node key (target.child key)

section

variable {selection : Selection} (restricted : selection.keepsAll = false)
  {start target : Node} {progress : Progress}

include restricted

/-- The filter is settled on a child that it takes, and stays so on the others. -/
theorem Underway.step
    (targetCanonical : target.Canonical)
    {key : Key} {child : Node} (childCanonical : child.Canonical)
    (unreserved : key.isPriority = false)
    (same : target.child key ≈ child) {rest : List (Key × Node)}
    (underway : selection.Underway start target ((key, child) :: rest)
      progress) :
    ∃ next,
      progress.take
          (selection.filter.setChild progress.node key child target) =
        .ok next ∧ selection.Underway start target rest next := by
  have canonical := underway.sound.canonical
  have holds := underway.confines.holds restricted
  obtain ⟨ledger, taken, sound⟩ := underway.sound.take
    (selection.filter.sound_setChild canonical childCanonical
      targetCanonical unreserved)
  refine ⟨_, taken, sound, underway.confines.setChild restricted canonical
    childCanonical targetCanonical unreserved, ?_⟩
  intro other otherUnreserved notPending
  by_cases here : other = key
  · subst here
    exact (Filter.settled_setChild canonical childCanonical targetCanonical
      unreserved holds).congr (Setoid.symm same)
  · refine Filter.settled_setChild_of_ne canonical childCanonical
      targetCanonical unreserved otherUnreserved here holds
      (underway.settled other otherUnreserved ?_)
    rw [List.map_cons, List.mem_cons, not_or]
    exact ⟨here, notPending⟩

private theorem Underway.run
    (targetCanonical : target.Canonical) {entries : List (Key × Node)}
    (fine : ∀ entry ∈ entries, entry.1.isPriority = false ∧
      entry.2.Canonical ∧ target.child entry.1 ≈ entry.2)
    (underway : selection.Underway start target entries progress) :
    ∃ final,
      selection.filter.setChildren target entries progress = .ok final ∧
        selection.Underway start target [] final := by
  induction entries generalizing progress with
  | nil => exact ⟨progress, rfl, underway⟩
  | cons entry rest inductionHypothesis =>
      obtain ⟨⟨unreserved, canonical, same⟩, others⟩ :=
        List.forall_mem_cons.mp fine
      obtain ⟨next, taken, goesOn⟩ :=
        underway.step restricted targetCanonical canonical unreserved same
      obtain ⟨final, run, done⟩ := inductionHypothesis others goesOn
      refine ⟨final, ?_, done⟩
      rw [Filter.setChildren, List.foldlM_cons, taken]
      exact run

/-- Once all children have been taken, the snapshot is what the filter keeps of the whole node. -/
theorem Underway.same_select
    (targetCanonical : target.Canonical)
    (underway : selection.Underway start target [] progress) :
    progress.node ≈ selection.filter.select target := by
  have selectCanonical :=
    Filter.canonical_select targetCanonical selection.filter
  have selectConfines := confines_select restricted targetCanonical
  refine Node.equiv_of_children underway.sound.canonical selectCanonical
    ?_ ?_ fun key unreserved => ?_
  · rw [Node.value?_of_branch underway.confines.branch,
      Node.value?_of_branch selectConfines.branch]
    exact .none
  · rw [underway.confines.bare, selectConfines.bare]
    rfl
  · exact Filter.child_equiv_of_settled underway.sound.canonical
      selectCanonical targetCanonical
      (fun key unreserved =>
        underway.settled key unreserved List.not_mem_nil)
      (fun key unreserved =>
        Filter.settled_select targetCanonical unreserved _)
      (underway.confines.few_of_limited restricted)
      (selectConfines.few_of_limited restricted) unreserved

/-- Children taken one after the other, in whatever order and with the children of the new node
known, lead to what the filter keeps of that node, and the ledger tells how it differs from what
the filter kept before. -/
theorem setChildren_agrees
    {node : Node} (canonical : node.Canonical)
    {entries : List (Key × Node)} (distinct : (entries.map (·.1)).Nodup)
    (fine : ∀ entry ∈ entries,
      entry.1.isPriority = false ∧ entry.2.Canonical) :
    let filter := selection.filter
    let target :=
      entries.foldl (fun all entry => all.setChild entry.1 entry.2) node
    let old := (filter.replace .empty node).node
    (∀ window : Window, filter = .limited window →
      ∀ (snap : Node) (last : Key × Node) (key : Key),
        window.Finds snap target key last
          (window.next? snap target last key)) ∧
    ∃ progress : Progress,
      filter.setChildren target entries ⟨old, []⟩ = .ok progress ∧
      progress.node.same (filter.replace .empty target).node = true ∧
      (∀ key : Key, key.isPriority = false →
        List.Forall₂ Change.Alike
          (progress.ledger.changes.filter (Change.tells key))
          (Change.between? key (old.child key)
            (progress.node.child key)).toList) ∧
      ∀ change ∈ progress.ledger.changes, ∃ key : Key,
        key.isPriority = false ∧
          change.Accurate key (old.child key) (progress.node.child key) := by
  intro filter target old
  have entriesCanonical : ∀ entry ∈ entries, entry.2.Canonical :=
    fun entry member => (fine entry member).2
  have targetCanonical : target.Canonical :=
    canonical.foldl_setChild entriesCanonical
  have underway : selection.Underway old target entries ⟨old, []⟩ := by
    refine ⟨⟨Filter.canonical_select canonical filter, .nil _⟩,
      confines_select restricted canonical, fun key unreserved absent => ?_⟩
    rw [Node.child_foldl_setChild_of_absent canonical entriesCanonical
      unreserved absent]
    exact Filter.settled_select canonical unreserved filter
  obtain ⟨progress, run, done⟩ :=
    underway.run restricted targetCanonical fun entry member =>
      ⟨(fine entry member).1, (fine entry member).2,
        Node.child_foldl_setChild_of_mem canonical distinct entriesCanonical
          member (fine entry member).1⟩
  refine ⟨fun window _ snap last key =>
    Window.finds_next? targetCanonical window snap last key,
    progress, run, done.same_select restricted targetCanonical,
    fun key unreserved => done.sound.tracks.tells unreserved,
    fun _ => done.sound.tracks.accurate_of_mem_changes⟩

end

def threeChildren : Node :=
  .branch [(⟨"a"⟩, .ofScalar (.bool true)), (⟨"b"⟩, .ofScalar (.bool false)),
    (⟨"c"⟩, .ofScalar (.bool true))] none

/-- The third child slides in for the first one, and leaves again for a new one. It is in neither
of the two snapshots, and the ledger does not tell of it. -/
theorem setChildren_agrees_detour :
    let filter := ({ index := .key, limit? := some (.first 2) } :
      Selection).filter
    let entries : List (Key × Node) :=
      [(⟨"a"⟩, .empty), (⟨"0"⟩, .ofScalar (.bool true))]
    let target := entries.foldl
      (fun all entry => all.setChild entry.1 entry.2) threeChildren
    ∃ progress : Progress,
      filter.setChildren target entries
          ⟨(filter.replace .empty threeChildren).node, []⟩ = .ok progress ∧
        progress.node.same (filter.replace .empty target).node = true ∧
        progress.ledger.changes.map (fun change =>
            (change.kind, change.key?)) =
          [(.added, some ⟨"0"⟩), (.removed, some ⟨"a"⟩)] := by
  intro filter entries target
  have canonical : threeChildren.Canonical :=
    ((Node.Canonical.empty.setChild (Node.Canonical.ofScalar (.bool true))
      ⟨"a"⟩).setChild (Node.Canonical.ofScalar (.bool false)) ⟨"b"⟩).setChild
        (Node.Canonical.ofScalar (.bool true)) ⟨"c"⟩
  have fine : ∀ entry ∈ entries,
      entry.1.isPriority = false ∧ entry.2.Canonical :=
    List.forall_mem_cons.mpr ⟨⟨by decide, Node.Canonical.empty⟩,
      List.forall_mem_singleton.mpr
        ⟨by decide, Node.Canonical.ofScalar (.bool true)⟩⟩
  obtain ⟨_, progress, run, same, _⟩ :=
    @setChildren_agrees { index := .key, limit? := some (.first 2) } rfl
      threeChildren canonical entries (by decide) fine
  have evaluated :
      (filter.setChildren target entries
          ⟨(filter.replace .empty threeChildren).node, []⟩).toOption.map
        (fun progress => progress.ledger.changes.map fun change =>
          (change.kind, change.key?)) =
        some [(.added, some ⟨"0"⟩), (.removed, some ⟨"a"⟩)] := by
    cbv
  rw [run] at evaluated
  exact ⟨progress, run, same, Option.some.inj evaluated⟩

end Selection

end Replica
