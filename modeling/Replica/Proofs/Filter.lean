import Replica.Proofs.Edit
import Replica.Proofs.Index

/-!
# Filters

A filter takes a child as far as it lets it through: the snapshot shows it already, or the child
is replaced, or a full window shifts. Each of these is a sound edit. A child of the new snapshot is
the child of the old one under the same key, or the new child, or a known one that has slid into a
window.
-/

namespace Replica

open Std

private theorem Node.priority?_setChild_none
    {node : Node} {key : Key} (canonical : node.Canonical)
    (unreserved : key.isPriority = false)
    (bare : node.priority? = none) (child : Node) :
    (node.setChild key child).priority? = none := by
  rw [Node.priority?_setChild canonical child unreserved, bare, ite_self]

namespace Window

theorem of_next?
    {window : Window} {snap known : Node} {last entry : Key × Node}
    {key : Key} (found : window.next? snap known last key = some entry) :
    entry ∈ known.children ∧ entry.1 ≠ key ∧
      snap.hasChild entry.1 = false ∧
        (window.order last entry).isLE = true := by
  unfold next? at found
  have chosen := List.find?_some found
  simp only [Bool.and_eq_true, bne_iff_ne, beq_iff_eq,
    Bool.not_eq_true'] at chosen
  obtain ⟨⟨behind, different⟩, outside⟩ := chosen
  exact ⟨mem_arrange.mp (List.mem_of_find?_eq_some found), different,
    outside, Ordering.isLE_of_eq_lt (OrientedCmp.lt_of_gt behind)⟩

/-- Of the siblings that may slide in, the first one does. -/
theorem exists_next?
    {window : Window} {snap known : Node} {last entry : Key × Node}
    {key : Key} (candidate : entry ∈ known.children)
    (different : entry.1 ≠ key)
    (outside : snap.hasChild entry.1 = false)
    (behind : window.order last entry = .lt) :
    ∃ next, window.next? snap known last key = some next ∧
      (window.order next entry).isLE = true := by
  have fits : (window.order entry last == .gt && entry.1 != key &&
      !snap.hasChild entry.1) = true := by
    rw [OrientedCmp.gt_of_lt behind, outside]
    simpa using different
  have arranged : entry ∈ window.arrange known :=
    mem_arrange.mpr candidate
  cases found : window.next? snap known last key with
  | none => exact absurd fits (List.find?_eq_none.mp found entry arranged)
  | some next =>
      refine ⟨next, rfl, ?_⟩
      obtain ⟨_, ahead, others, split, unfit⟩ :=
        List.find?_eq_some_iff_append.mp found
      have sorted := window.pairwise_arrange known
      rw [split] at arranged sorted
      rcases List.mem_append.mp arranged with early | late
      · have contrary := unfit entry early
        rw [fits] at contrary
        cases contrary
      · rcases List.mem_cons.mp late with rfl | isBehind
        · exact Ordering.isLE_of_eq_eq ReflCmp.compare_self
        · exact (List.pairwise_cons.mp
            (List.pairwise_append.mp sorted).2.1).1 entry isBehind

/-- What becomes of a full window when a child is replaced, told by the last sibling that it holds
and the one that comes next. -/
inductive Turned (window : Window) (snap : Node) (key : Key)
    (child known : Node) : Edit → Prop where
  | unchanged (outside : snap.hasChild key = false)
      (behind : child.isEmpty = true ∨ window.Closes snap (key, child)) :
      Turned window snap key child known (.unchanged snap)
  | kept (held : snap.hasChild key = true)
      (present : child.isEmpty = false)
      {last : Key × Node} (isHeld : last ∈ snap.children)
      (closes : window.Closes snap last)
      (first : ∀ next, window.next? snap known last key = some next →
        (window.order (key, child) next).isLE = true) :
      Turned window snap key child known
        ⟨snap.setChild key child, [.changed key child (snap.child key)]⟩
  | left (held : snap.hasChild key = true)
      {last : Key × Node} (isHeld : last ∈ snap.children)
      (closes : window.Closes snap last)
      (unfit : ∀ next, window.next? snap known last key = some next →
        window.range.contains next = false)
      (passed : child.isEmpty = true ∨
        ∃ next, window.next? snap known last key = some next ∧
          window.order next (key, child) = .lt) :
      Turned window snap key child known
        ⟨snap.setChild key .empty, [.removed key (snap.child key)]⟩
  | replaced (held : snap.hasChild key = true)
      {last : Key × Node} (isHeld : last ∈ snap.children)
      (closes : window.Closes snap last)
      {name : Key} {node : Node}
      (isNext : window.next? snap known last key = some (name, node))
      (inside : window.range.contains (name, node) = true)
      (passed : child.isEmpty = true ∨
        window.order (name, node) (key, child) = .lt) :
      Turned window snap key child known
        ⟨(snap.setChild key .empty).setChild name node,
          [.removed key (snap.child key), .added name node]⟩
  | entered (outside : snap.hasChild key = false)
      (present : child.isEmpty = false)
      {last : Key × Node} (isHeld : last ∈ snap.children)
      (closes : window.Closes snap last)
      (before : window.order (key, child) last = .lt) :
      Turned window snap key child known
        ⟨(snap.setChild key child).setChild last.1 .empty,
          [.removed last.1 last.2, .added key child]⟩

theorem turned_shift
    (window : Window) (snap : Node) {key : Key}
    (unreserved : key.isPriority = false) (child known : Node) :
    Turned window snap key child known
      (window.shift snap key child known) := by
  unfold shift
  split
  · rename_i nothing
    have childless (entry : Key × Node) : entry ∉ snap.children := by
      intro member
      have arranged : entry ∈ window.arrange snap :=
        mem_arrange.mpr member
      rw [List.getLast?_eq_none_iff.mp nothing] at arranged
      cases arranged
    refine .unchanged ?_ (.inr fun entry member =>
      absurd member (childless entry))
    rw [Node.hasChild_of_not_priority unreserved,
      List.eq_nil_iff_forall_not_mem.mpr childless]
    rfl
  · rename_i last isLast
    have isHeld : last ∈ snap.children :=
      mem_arrange.mp (List.mem_of_getLast? isLast)
    have closes := closes_of_getLast? isLast
    split
    · rename_i held
      dsimp only
      split
      · rename_i stays
        obtain ⟨present, first⟩ := Bool.and_eq_true_iff.mp stays
        refine .kept held (by simpa using present) isHeld closes
          fun next isNext => ?_
        rw [isNext, Option.all_some, bne_iff_ne] at first
        rw [← Ordering.ne_gt_iff_isLE]
        exact fun behind => first (OrientedCmp.lt_of_gt behind)
      · rename_i leaves
        -- A child that leaves although it is present has fallen behind the first sibling outside.
        have passed : child.isEmpty = true ∨
            ∃ next, window.next? snap known last key = some next ∧
              window.order next (key, child) = .lt := by
          simpa [or_iff_not_imp_left, Option.all_eq_true] using leaves
        split
        · rename_i name node chosen
          obtain ⟨isNext, inside⟩ := Option.filter_eq_some_iff.mp chosen
          refine .replaced held isHeld closes isNext inside
            (passed.imp_right ?_)
          rintro ⟨next, isOther, before⟩
          rw [Option.some.inj (isNext.symm.trans isOther)]
          exact before
        · rename_i unfit
          refine .left held isHeld closes (fun next isNext => ?_) passed
          rw [isNext, Option.filter_some] at unfit
          simpa using unfit
    · rename_i notHeld
      have outside : snap.hasChild key = false := by
        simpa using notHeld
      split
      · rename_i gone
        exact .unchanged outside (.inl gone)
      · rename_i present
        split
        · rename_i ahead
          exact .entered outside (by simpa using present) isHeld closes
            (OrientedCmp.lt_of_gt (beq_iff_eq.mp ahead))
        · rename_i behind
          refine .unchanged outside (.inr (closes.trans ?_))
          rw [beq_iff_eq] at behind
          exact Ordering.ne_gt_iff_isLE.mp behind

variable {window : Window} {snap child known : Node} {key : Key}

/-- What happens to a full window is a sound edit. -/
theorem Turned.sound
    (canonical : snap.Canonical) (childCanonical : child.Canonical)
    (knownCanonical : known.Canonical)
    (unreserved : key.isPriority = false)
    {edit : Edit} (turned : Turned window snap key child known edit) :
    Edit.Sound snap edit := by
  have present (name : Key) (nameUnreserved : name.isPriority = false)
      (held : snap.hasChild name = true) :
      (snap.child name).isEmpty = false := by
    rw [Node.hasChild_eq_not_isEmpty canonical nameUnreserved] at held
    simpa using held
  have absent (name : Key) (nameUnreserved : name.isPriority = false)
      (outside : snap.hasChild name = false) :
      snap.child name ≈ .empty := by
    rw [Node.child_of_not_hasChild nameUnreserved outside]
  have untouched (name : Key) (newChild : Node) (other : Key)
      (otherUnreserved : other.isPriority = false)
      (different : other ≠ name) :
      snap.child other ≈ (snap.setChild name newChild).child other := by
    rw [Node.child_setChild_of_ne canonical newChild otherUnreserved
      different]
  cases turned with
  | unchanged _ _ => exact Edit.Sound.unchanged canonical
  | kept held childPresent _ _ _ =>
      have result :=
        Node.child_setChild_self canonical childCanonical unreserved
      refine ⟨canonical.setChild childCanonical key, ?_⟩
      refine Edit.leads_of_one unreserved
        (.changed (present key unreserved held) ?_ (Setoid.symm result)
          (Setoid.refl _)) (untouched key child)
      rw [Node.isEmpty_congr result]
      exact childPresent
  | left held _ _ _ _ =>
      refine ⟨canonical.setChild Node.Canonical.empty key, ?_⟩
      exact Edit.leads_of_one unreserved
        (.removed (present key unreserved held)
          (Node.child_setChild_self canonical Node.Canonical.empty
            unreserved) (Setoid.refl _)) (untouched key .empty)
  | @replaced held _ _ _ name node isNext _ _ =>
      obtain ⟨candidate, different, outside, _⟩ := of_next? isNext
      have nameUnreserved :=
        knownCanonical.unreserved_of_mem_children candidate
      have nodeCanonical := knownCanonical.of_mem_children candidate
      have shrunk := canonical.setChild Node.Canonical.empty key
      have arrived :=
        Node.child_setChild_self shrunk nodeCanonical nameUnreserved
      refine ⟨shrunk.setChild nodeCanonical name, ?_⟩
      refine Edit.leads_of_two different.symm unreserved nameUnreserved
        (.removed (present key unreserved held) ?_ (Setoid.refl _))
        (.added (absent name nameUnreserved outside) ?_
          (Setoid.symm arrived)) ?_
      · exact Node.child_setChild_setChild canonical Node.Canonical.empty node
          unreserved different.symm
      · rw [Node.isEmpty_congr arrived]
        exact knownCanonical.nonempty_of_mem_children candidate
      · intro other otherUnreserved notKey notName
        rw [Node.child_setChild_of_ne shrunk node otherUnreserved notName]
        exact untouched key .empty other otherUnreserved notKey
  | @entered outside childPresent last held _ _ =>
      have lastUnreserved := canonical.unreserved_of_mem_children held
      have lastFound := Node.child_of_mem_children canonical held
      have grown := canonical.setChild childCanonical key
      have different := Node.key_ne_of_not_hasChild canonical outside held
      have entered := Node.child_setChild_setChild canonical childCanonical
        .empty unreserved different.symm
      refine ⟨grown.setChild Node.Canonical.empty last.1, ?_⟩
      refine Edit.leads_of_two different lastUnreserved unreserved
        (.removed ?_ ?_ ?_)
        (.added (absent key unreserved outside) ?_
          (Setoid.symm entered)) ?_
      · rw [lastFound]
        exact canonical.nonempty_of_mem_children held
      · exact Node.child_setChild_self grown Node.Canonical.empty
          lastUnreserved
      · rw [lastFound]
      · rw [Node.isEmpty_congr entered]
        exact childPresent
      · intro other otherUnreserved notLast notKey
        rw [Node.child_setChild_of_ne grown .empty otherUnreserved notLast]
        exact untouched key child other otherUnreserved notKey

theorem Closes.setChild
    {sibling : Key × Node} (closes : window.Closes snap sibling)
    (unreserved : key.isPriority = false)
    (before : child.isEmpty = false →
      (window.order (key, child) sibling).isLE = true) :
    window.Closes (snap.setChild key child) sibling := by
  intro entry member
  rcases Node.mem_children_setChild unreserved member with
    old | ⟨present, rfl⟩
  · exact closes entry old
  · exact before present

theorem Closes.remove
    {sibling : Key × Node} (closes : window.Closes snap sibling)
    (unreserved : key.isPriority = false) :
    window.Closes (snap.setChild key .empty) sibling :=
  closes.setChild unreserved fun present => nomatch present

theorem Turned.child_self
    (canonical : snap.Canonical) (childCanonical : child.Canonical)
    (unreserved : key.isPriority = false)
    {edit : Edit} (turned : Turned window snap key child known edit) :
    edit.node.child key ≈ child ∨ edit.node.child key ≈ .empty := by
  cases turned with
  | unchanged outside _ =>
      have absent : snap.child key ≈ .empty := by
        rw [Node.child_of_not_hasChild unreserved outside]
      exact .inr absent
  | kept _ _ _ _ _ =>
      exact .inl
        (Node.child_setChild_self canonical childCanonical unreserved)
  | left _ _ _ _ _ =>
      exact .inr
        (Node.child_setChild_self canonical Node.Canonical.empty unreserved)
  | replaced _ _ _ isNext _ _ =>
      exact .inr (Node.child_setChild_setChild canonical Node.Canonical.empty
        _ unreserved (of_next? isNext).2.1.symm)
  | entered outside _ isHeld _ _ =>
      exact .inl (Node.child_setChild_setChild canonical childCanonical .empty
        unreserved
        (Node.key_ne_of_not_hasChild canonical outside isHeld).symm)

/-- Another child is left as it was, or is a known one that slides in, or the last one, which the
window lets go. -/
theorem Turned.child_of_ne
    (canonical : snap.Canonical) (childCanonical : child.Canonical)
    (knownCanonical : known.Canonical)
    (unreserved : key.isPriority = false)
    {edit : Edit} (turned : Turned window snap key child known edit)
    {other : Key} (otherUnreserved : other.isPriority = false)
    (different : other ≠ key) :
    edit.node.child other = snap.child other ∨
      (window.range.contains (other, known.child other) = true ∧
        edit.node.child other ≈ known.child other) ∨
      ∃ node, (other, node) ∈ snap.children ∧
        edit.node.hasChild other = false ∧
        snap.children.length ≤ edit.node.children.length ∧
        window.Closes edit.node (other, node) := by
  cases turned with
  | unchanged _ _ => exact .inl rfl
  | kept _ _ _ _ _ =>
      exact .inl
        (Node.child_setChild_of_ne canonical child otherUnreserved different)
  | left _ _ _ _ _ =>
      exact .inl
        (Node.child_setChild_of_ne canonical .empty otherUnreserved different)
  | @replaced _ _ _ _ name node isNext inside _ =>
      have candidate := (of_next? isNext).1
      have shrunk := canonical.setChild Node.Canonical.empty key
      by_cases slid : other = name
      · subst slid
        rw [Node.child_of_mem_children knownCanonical candidate]
        exact .inr (.inl ⟨inside, Node.child_setChild_self shrunk
          (knownCanonical.of_mem_children candidate) otherUnreserved⟩)
      · exact .inl
          ((Node.child_setChild_of_ne shrunk node otherUnreserved slid).trans
            (Node.child_setChild_of_ne canonical .empty otherUnreserved
              different))
  | @entered outside present last isHeld closes before =>
      have grown := canonical.setChild childCanonical key
      by_cases isLast : other = last.1
      · subst isLast
        refine .inr (.inr ⟨last.2, isHeld, ?_, ?_, ?_⟩)
        · rw [Node.hasChild_eq_not_isEmpty
            (grown.setChild Node.Canonical.empty last.1) otherUnreserved,
            Node.isEmpty_congr (Node.child_setChild_self grown
              Node.Canonical.empty otherUnreserved)]
          rfl
        · exact (Node.length_children_exchange_after canonical childCanonical
            present unreserved otherUnreserved outside
            (Node.hasChild_of_mem_children canonical isHeld)).ge
        · exact (closes.setChild unreserved fun _ =>
            Ordering.isLE_of_eq_lt before).remove otherUnreserved
      · exact .inl
          ((Node.child_setChild_of_ne grown .empty otherUnreserved
            isLast).trans
            (Node.child_setChild_of_ne canonical child otherUnreserved
              different))

/-- A full window holds the new child, what it held, or a known child that has slid in. -/
theorem Turned.child_of_present
    (canonical : snap.Canonical) (childCanonical : child.Canonical)
    (knownCanonical : known.Canonical)
    (unreserved : key.isPriority = false)
    {edit : Edit} (turned : Turned window snap key child known edit)
    {other : Key} (otherUnreserved : other.isPriority = false)
    (present : (edit.node.child other).isEmpty = false) :
    (other = key ∧ edit.node.child other ≈ child) ∨
      (other ≠ key ∧ edit.node.child other = snap.child other) ∨
        (other ≠ key ∧ edit.node.child other ≈ known.child other) := by
  by_cases here : other = key
  · subst here
    refine .inl ⟨rfl, ?_⟩
    refine (turned.child_self canonical childCanonical
      unreserved).resolve_right fun gone => ?_
    exact Ledger.not_present_of_absent gone present
  · rcases turned.child_of_ne canonical childCanonical knownCanonical
        unreserved otherUnreserved here with
      untouched | ⟨_, slid⟩ | ⟨_, _, outside, _⟩
    · exact .inr (.inl ⟨here, untouched⟩)
    · exact .inr (.inr ⟨here, slid⟩)
    · rw [Node.child_of_not_hasChild otherUnreserved outside] at present
      cases present

/-- What replacing a child never takes from a node, a full window does not take from it. -/
theorem Turned.keeps
    {fits : Node → Prop}
    (keeps : ∀ {node : Node} {key : Key}, node.Canonical →
      key.isPriority = false → fits node →
      ∀ child : Node, fits (node.setChild key child))
    (canonical : snap.Canonical) (childCanonical : child.Canonical)
    (knownCanonical : known.Canonical) (snapFits : fits snap)
    (unreserved : key.isPriority = false)
    {edit : Edit} (turned : Turned window snap key child known edit) :
    fits edit.node := by
  have removed := keeps canonical unreserved snapFits .empty
  have placed := keeps canonical unreserved snapFits child
  cases turned with
  | unchanged _ _ => exact snapFits
  | kept _ _ _ _ _ => exact placed
  | left _ _ _ _ _ => exact removed
  | replaced _ _ _ isNext _ _ =>
      exact keeps (canonical.setChild Node.Canonical.empty key)
        (knownCanonical.unreserved_of_mem_children (of_next? isNext).1) removed
        _
  | entered _ _ held _ _ =>
      exact keeps (canonical.setChild childCanonical key)
        (canonical.unreserved_of_mem_children held) placed .empty

end Window

namespace Filter

/-! ## What a filter lets through -/

/-- Whether the filter lets a child through, whatever stands beside it. -/
def admits (filter : Filter) (sibling : Key × Node) : Bool :=
  match filter with
  | .everything _ => true
  | .within range => range.contains sibling
  | .limited window => window.range.contains sibling

/-- A child as the filter lets it through: itself or nothing. -/
def clip (filter : Filter) (key : Key) (child : Node) : Node :=
  if filter.admits (key, child) then child else .empty

theorem canonical_clip
    {child : Node} (canonical : child.Canonical) (filter : Filter)
    (key : Key) : (filter.clip key child).Canonical := by
  unfold clip
  split
  · exact canonical
  · exact Node.Canonical.empty

@[simp]
theorem clip_empty (filter : Filter) (key : Key) :
    filter.clip key .empty = .empty :=
  ite_self _

section

variable {filter : Filter} {snap child known : Node} {key : Key}

theorem clip_of_admits
    (admitted : filter.admits (key, child) = true) :
    filter.clip key child = child :=
  if_pos admitted

theorem admits_of_clip
    (present : (filter.clip key child).isEmpty = false) :
    filter.admits (key, child) = true := by
  unfold clip at present
  split at present
  · assumption
  · cases present

theorem equiv_of_equiv_clip
    {result : Node} (equal : result ≈ filter.clip key child)
    (present : result.isEmpty = false) : result ≈ child := by
  rw [Node.isEmpty_congr equal] at present
  rw [clip_of_admits (admits_of_clip present)] at equal
  exact equal

theorem setChild_of_shown
    (same : snap.child key ≈ filter.clip key child) (known : Node) :
    filter.setChild snap key child known = .unchanged snap := by
  cases filter with
  | everything _ => exact if_pos same
  | within _ => exact if_pos same
  | limited _ => exact if_pos same

end

theorem setChild_limited (window : Window) (snap : Node) (key : Key)
    (child known : Node) :
    (limited window).setChild snap key child known =
      if (snap.child key).same ((limited window).clip key child) then
        .unchanged snap
      else if snap.children.length < window.limit.count then
        .ofChild snap key ((limited window).clip key child)
      else
        window.shift snap key ((limited window).clip key child) known :=
  rfl

/-- What becomes of a snapshot when a filter takes a child. -/
inductive Taken (filter : Filter) (snap : Node) (key : Key)
    (child known : Node) : Edit → Prop where
  | shown (same : snap.child key ≈ filter.clip key child) :
      Taken filter snap key child known (.unchanged snap)
  | placed :
      Taken filter snap key child known
        (.ofChild snap key (filter.clip key child))
  | turned {window : Window} (isWindow : filter = .limited window)
      (full : window.limit.count ≤ snap.children.length)
      {edit : Edit}
      (turned :
        window.Turned snap key (filter.clip key child) known edit) :
      Taken filter snap key child known edit

theorem taken_setChild
    (filter : Filter) (snap : Node) {key : Key}
    (unreserved : key.isPriority = false) (child known : Node) :
    Taken filter snap key child known
      (filter.setChild snap key child known) := by
  cases filter with
  | everything _ => exact .placed
  | within _ => exact .placed
  | limited window =>
      rw [setChild_limited]
      split
      · rename_i same
        exact .shown same
      · split
        · exact .placed
        · rename_i full
          exact .turned rfl (Nat.not_lt.mp full)
            (window.turned_shift snap unreserved _ known)

/-! ## Sound edits -/

theorem canonical_select
    {node : Node} (canonical : node.Canonical) (filter : Filter) :
    (filter.select node).Canonical := by
  have kept (keep : Key × Node → Bool) :
      (Node.ofSorted (node.children.filter keep) none).Canonical := by
    refine Node.Canonical.ofSorted
      (Sorted.ascending_filter keep canonical.children_ascending)
      ?_ ?_ ?_ none
    · exact fun entry member =>
        canonical.nonempty_of_mem_children (List.mem_filter.mp member).1
    · exact fun entry member =>
        canonical.unreserved_of_mem_children (List.mem_filter.mp member).1
    · exact fun entry member =>
        canonical.of_mem_children (List.mem_filter.mp member).1
  cases filter with
  | everything _ => exact canonical
  | within range => exact kept range.contains
  | limited window => exact kept _

theorem sound_replace
    {old new : Node} (oldCanonical : old.Canonical)
    (newCanonical : new.Canonical) (filter : Filter) :
    Edit.Sound old (filter.replace old new) :=
  Edit.Sound.ofNode oldCanonical (canonical_select newCanonical filter)

theorem sound_setChild
    {snap child known : Node} (canonical : snap.Canonical)
    (childCanonical : child.Canonical) (knownCanonical : known.Canonical)
    {key : Key} (unreserved : key.isPriority = false) (filter : Filter) :
    Edit.Sound snap (filter.setChild snap key child known) := by
  have clipped := filter.canonical_clip childCanonical key
  have taken := filter.taken_setChild snap unreserved child known
  generalize filter.setChild snap key child known = edit at taken ⊢
  cases taken with
  | shown _ => exact Edit.Sound.unchanged canonical
  | placed => exact Edit.Sound.ofChild canonical clipped unreserved
  | turned _ _ turned =>
      exact turned.sound canonical clipped knownCanonical unreserved

/-! ## What the edited snapshot holds -/

/-- What replacing a child never takes from a node, a filter does not take from it either. -/
theorem setChild_keeps
    (fits : Node → Prop)
    (keeps : ∀ {node : Node} {key : Key}, node.Canonical →
      key.isPriority = false → fits node →
      ∀ child : Node, fits (node.setChild key child))
    {snap child known : Node} (canonical : snap.Canonical)
    (childCanonical : child.Canonical) (knownCanonical : known.Canonical)
    (snapFits : fits snap) {key : Key}
    (unreserved : key.isPriority = false) (filter : Filter) :
    fits (filter.setChild snap key child known).node := by
  have clipped := filter.canonical_clip childCanonical key
  have taken := filter.taken_setChild snap unreserved child known
  generalize filter.setChild snap key child known = edit at taken ⊢
  cases taken with
  | shown _ => exact snapFits
  | placed =>
      rw [Edit.node_ofChild_eq_setChild snap _ unreserved]
      exact keeps canonical unreserved snapFits _
  | turned _ _ turned =>
      exact turned.keeps keeps canonical clipped knownCanonical snapFits
        unreserved

/-- A child of the edited snapshot is the new one, or it was there before under another key, or it
is a known one that has slid in. -/
theorem child_setChild_cases
    {snap child known : Node} (canonical : snap.Canonical)
    (childCanonical : child.Canonical) (knownCanonical : known.Canonical)
    {key : Key} (unreserved : key.isPriority = false) (filter : Filter)
    {other : Key} (otherUnreserved : other.isPriority = false)
    (present :
      ((filter.setChild snap key child known).node.child
        other).isEmpty = false) :
    (other = key ∧
        (filter.setChild snap key child known).node.child other ≈
          child) ∨
      (other ≠ key ∧
        (filter.setChild snap key child known).node.child other =
          snap.child other) ∨
        (other ≠ key ∧
          (filter.setChild snap key child known).node.child other ≈
            known.child other) := by
  have clipped := filter.canonical_clip childCanonical key
  have taken := filter.taken_setChild snap unreserved child known
  generalize filter.setChild snap key child known = edit at taken present ⊢
  cases taken with
  | shown same =>
      by_cases here : other = key
      · subst here
        exact Or.inl ⟨rfl, equiv_of_equiv_clip same present⟩
      · exact Or.inr (Or.inl ⟨here, rfl⟩)
  | placed =>
      by_cases here : other = key
      · subst here
        exact Or.inl ⟨rfl, equiv_of_equiv_clip
          (Edit.child_ofChild_self canonical clipped unreserved) present⟩
      · exact Or.inr (Or.inl ⟨here,
          Edit.child_ofChild_of_ne canonical _ otherUnreserved here⟩)
  | turned _ _ turned =>
      exact (turned.child_of_present canonical clipped knownCanonical
        unreserved otherUnreserved present).imp_left fun new =>
          ⟨new.1, equiv_of_equiv_clip new.2 present⟩

/-- When no further children are known, a child of the edited snapshot is the new one, or it was
there before under another key. -/
theorem child_setChild_of_present
    {snap child : Node} (canonical : snap.Canonical)
    (childCanonical : child.Canonical)
    {key : Key} (unreserved : key.isPriority = false) (filter : Filter)
    {other : Key} (otherUnreserved : other.isPriority = false)
    (present :
      ((filter.setChild snap key child .empty).node.child
        other).isEmpty = false) :
    (other = key ∧
        (filter.setChild snap key child .empty).node.child other ≈
          child) ∨
      (other ≠ key ∧
        (filter.setChild snap key child .empty).node.child other =
          snap.child other) := by
  rcases child_setChild_cases canonical childCanonical
      Node.Canonical.empty unreserved filter otherUnreserved present with
    new | kept | ⟨_, slid⟩
  · exact Or.inl new
  · exact Or.inr kept
  · rw [Node.child_empty] at slid
    exact absurd present fun contrary =>
      Ledger.not_present_of_absent slid contrary

theorem canonical_setPriority
    {snap : Node} (canonical : snap.Canonical) (filter : Filter)
    (priority : Option Priority) :
    (filter.setPriority snap priority).Canonical := by
  cases filter with
  | everything _ => exact canonical.setPriority priority
  | within _ => exact canonical
  | limited _ => exact canonical

/-- What a filter keeps of a snapshot stays as it was. -/
theorem child_select_of_present
    {node : Node} (canonical : node.Canonical) (filter : Filter)
    {key : Key} (unreserved : key.isPriority = false)
    (present : ((filter.select node).child key).isEmpty = false) :
    (filter.select node).child key = node.child key := by
  have kept (keep : Key × Node → Bool)
      (there : ((Node.ofSorted (node.children.filter keep) none).child
        key).isEmpty = false) :
      (Node.ofSorted (node.children.filter keep) none).child key =
        node.child key := by
    rw [Node.child_of_not_priority unreserved, Node.children_ofSorted,
      Sorted.find?_filter keep canonical.children_ascending] at there ⊢
    rw [Node.child_of_not_priority unreserved]
    cases stored : Sorted.find? key node.children with
    | none => rfl
    | some child =>
        rw [stored, Option.filter_some] at there
        rw [Option.filter_some]
        cases keeps : keep (key, child) with
        | true => rfl
        | false =>
            rw [keeps] at there
            cases there
  cases filter with
  | everything _ => rfl
  | within range => exact kept range.contains present
  | limited window => exact kept _ present

/-! ## Filters that may leave children out -/

section

variable {filter : Filter} (drops : filter.drops = true)

include drops

private theorem select_of_drops (node : Node) :
    ∃ children, filter.select node = .ofSorted children none := by
  cases filter with
  | everything _ => cases drops
  | within _ => exact ⟨_, rfl⟩
  | limited _ => exact ⟨_, rfl⟩

/-- A filter that may leave children out shows no leaf. -/
@[simp]
theorem isLeaf_select (node : Node) :
    (filter.select node).isLeaf = false := by
  obtain ⟨children, selected⟩ := select_of_drops drops node
  rw [selected, Node.isLeaf_eq_isSome_value?, Node.value?_ofSorted]
  rfl

/-- A filter that may leave children out shows no priority. -/
@[simp]
theorem priority?_select (node : Node) :
    (filter.select node).priority? = none := by
  obtain ⟨children, selected⟩ := select_of_drops drops node
  rw [selected, Node.priority?_ofSorted, ite_self]

theorem setPriority_of_drops (snap : Node) (priority : Option Priority) :
    filter.setPriority snap priority = snap := by
  cases filter with
  | everything _ => cases drops
  | within _ => rfl
  | limited _ => rfl

end

/-- Replacing a child gives no priority to a snapshot without one. -/
theorem priority?_setChild_of_none
    {snap child known : Node} (canonical : snap.Canonical)
    (childCanonical : child.Canonical) (knownCanonical : known.Canonical)
    (bare : snap.priority? = none)
    {key : Key} (unreserved : key.isPriority = false) (filter : Filter) :
    (filter.setChild snap key child known).node.priority? = none :=
  setChild_keeps (·.priority? = none) Node.priority?_setChild_none canonical
    childCanonical knownCanonical bare unreserved filter

end Filter

/-! ## The filter of a selection -/

@[simp]
theorem Selection.drops_filter (selection : Selection) :
    selection.filter.drops = !selection.keepsAll := by
  unfold filter
  cases limit : selection.limit? with
  | some count =>
      unfold keepsAll
      rw [limit]
      simp [Filter.drops]
  | none =>
      dsimp only
      cases selection.keepsAll with
      | true => rfl
      | false => rfl

theorem Selection.filter_of_keepsAll
    {selection : Selection} (unrestricted : selection.keepsAll = true) :
    selection.filter = .everything selection.index := by
  have unlimited : selection.limit? = none := by
    have parts := unrestricted
    unfold keepsAll at parts
    simpa using (Bool.and_eq_true_iff.mp parts).2
  unfold filter
  rw [unlimited]
  exact if_pos unrestricted

theorem Selection.filter_of_bounds
    {selection : Selection} (unlimited : selection.limit? = none)
    (restricted : selection.keepsAll = false) :
    selection.filter = .within selection.range := by
  unfold filter
  rw [unlimited, restricted]
  rfl

theorem Selection.filter_of_limit
    {selection : Selection} {limit : Limit}
    (limited : selection.limit? = some limit) :
    selection.filter = .limited ⟨selection.range, limit⟩ := by
  unfold filter
  rw [limited]

end Replica
