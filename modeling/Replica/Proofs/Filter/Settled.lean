import Replica.Proofs.Filter

/-!
# Children that have settled

Once a filter has taken a child, taking the same child again changes nothing. Either the snapshot
shows the child as far as the filter lets it through, or the child comes behind all siblings of a
full window. The second may happen to a child that the window has just let go, because a known
sibling before it has taken its place.
-/

namespace Replica

open Std

namespace Filter

private theorem clip_congr
    {child other : Node} (equal : child ≈ other) (filter : Filter)
    (key : Key) : filter.clip key child ≈ filter.clip key other := by
  have sameAdmission :
      filter.admits (key, child) = filter.admits (key, other) := by
    cases filter with
    | everything _ => rfl
    | within range => exact range.contains_congr equal key
    | limited window => exact window.range.contains_congr equal key
  unfold clip
  rw [sameAdmission]
  split
  · exact equal
  · exact Setoid.refl _

variable {filter : Filter} {snap child known : Node} {key : Key}

theorem clip_of_keepsAll
    (keepsAll : filter.drops = false) (key : Key) (child : Node) :
    filter.clip key child = child := by
  cases filter with
  | everything _ => rfl
  | within _ => cases keepsAll
  | limited _ => cases keepsAll

private theorem admits_clip
    (present : (filter.clip key child).isEmpty = false) :
    filter.admits (key, filter.clip key child) = true := by
  have admitted := admits_of_clip present
  rw [clip_of_admits admitted]
  exact admitted

/-! ## Snapshots of admitted children -/

/-- The filter lets every child of the snapshot through. -/
def Holds (filter : Filter) (snap : Node) : Prop :=
  ∀ entry ∈ snap.children, filter.admits entry = true

private theorem Holds.setChild
    (holds : filter.Holds snap) (unreserved : key.isPriority = false)
    (admitted : child.isEmpty = false →
      filter.admits (key, child) = true) :
    filter.Holds (snap.setChild key child) := by
  intro entry member
  rcases Node.mem_children_setChild unreserved member with
    old | ⟨present, rfl⟩
  · exact holds entry old
  · exact admitted present

private theorem Holds.remove
    (holds : filter.Holds snap) (unreserved : key.isPriority = false) :
    filter.Holds (snap.setChild key .empty) :=
  holds.setChild unreserved fun present => nomatch present

theorem kept_subset (window : Window) (node : Node) :
    window.kept node ⊆ node.children := fun _ isKept =>
  Window.mem_arrange.mp (List.mem_filter.mp (List.mem_of_mem_take isKept)).1

/-- A window selects the children that it keeps. -/
theorem mem_children_select
    {node : Node} (canonical : node.Canonical) (window : Window)
    {entry : Key × Node} :
    entry ∈ ((limited window).select node).children ↔
      entry ∈ window.kept node := by
  have within := kept_subset window node
  change entry ∈ (Node.ofSorted _ none).children ↔ _
  rw [Node.children_ofSorted, List.mem_filter]
  constructor
  · rintro ⟨member, named⟩
    exact (Node.contains_keys_iff canonical within member).mp named
  · intro isKept
    have member := within isKept
    exact ⟨member,
      (Node.contains_keys_iff canonical within member).mpr isKept⟩

@[simp]
theorem length_children_select
    {node : Node} (canonical : node.Canonical) (window : Window) :
    ((limited window).select node).children.length =
      (window.kept node).length := by
  have distinct {siblings : Node} (siblingsCanonical : siblings.Canonical) :
      siblings.children.Nodup :=
    List.Pairwise.of_map _ (fun _ _ => mt (congrArg Prod.fst))
      (Sorted.nodup_keys siblingsCanonical.children_ascending)
  have keptDistinct : (window.kept node).Nodup :=
    (((window.perm_arrange node).nodup_iff.mpr (distinct canonical)).filter
      _).sublist (List.take_sublist _ _)
  refine ((List.perm_ext_iff_of_nodup
    (distinct (canonical_select canonical _)) keptDistinct).mpr ?_).length_eq
  exact fun _ => mem_children_select canonical window

theorem holds_select
    {node : Node} (canonical : node.Canonical) (filter : Filter) :
    filter.Holds (filter.select node) := by
  cases filter with
  | everything _ => exact fun _ _ => rfl
  | within range =>
      intro entry member
      change entry ∈ (Node.ofSorted _ none).children at member
      rw [Node.children_ofSorted] at member
      exact (List.mem_filter.mp member).2
  | limited window =>
      intro entry member
      have isKept := (mem_children_select canonical window).mp member
      exact (List.mem_filter.mp (List.mem_of_mem_take isKept)).2

private theorem Holds.ofChild
    (holds : filter.Holds snap) (unreserved : key.isPriority = false) :
    filter.Holds
      (Edit.ofChild snap key (filter.clip key child)).node := by
  rw [Edit.node_ofChild_eq_setChild snap _ unreserved]
  exact holds.setChild unreserved admits_clip

private theorem Holds.turned
    {window : Window} (holds : (limited window).Holds snap)
    (canonical : snap.Canonical) (knownCanonical : known.Canonical)
    (unreserved : key.isPriority = false)
    (admitted : child.isEmpty = false →
      (limited window).admits (key, child) = true)
    {edit : Edit} (turned : window.Turned snap key child known edit) :
    (limited window).Holds edit.node := by
  cases turned with
  | unchanged _ _ => exact holds
  | kept _ _ _ _ _ => exact holds.setChild unreserved admitted
  | left _ _ _ _ _ => exact holds.remove unreserved
  | replaced _ _ _ isNext inside _ =>
      exact (holds.remove unreserved).setChild
        (knownCanonical.unreserved_of_mem_children
          (Window.of_next? isNext).1) fun _ => inside
  | entered _ _ held _ _ =>
      exact (holds.setChild unreserved admitted).remove
        (canonical.unreserved_of_mem_children held)

theorem holds_setChild
    (holds : filter.Holds snap) (knownCanonical : known.Canonical)
    (canonical : snap.Canonical) (unreserved : key.isPriority = false) :
    filter.Holds (filter.setChild snap key child known).node := by
  have taken := filter.taken_setChild snap unreserved child known
  generalize filter.setChild snap key child known = edit at taken ⊢
  cases taken with
  | shown _ => exact holds
  | placed => exact holds.ofChild unreserved
  | turned isWindow _ turned =>
      subst isWindow
      exact holds.turned canonical knownCanonical unreserved admits_clip turned

/-! ## Taking a child twice -/

/-- Taking a child changes nothing any more. -/
inductive Settled (filter : Filter) (snap : Node) (key : Key)
    (child : Node) : Prop where
  /-- The snapshot shows it as far as the filter lets it through. -/
  | shown (same : snap.child key ≈ filter.clip key child)
  /-- It comes behind all siblings of a full window. -/
  | behind {window : Window} (isWindow : filter = .limited window)
      (outside : snap.hasChild key = false)
      (full : window.limit.count ≤ snap.children.length)
      (closes : window.Closes snap (key, child))

end Filter

namespace Window

variable {window : Window} {snap child known : Node} {key : Key}

private theorem shift_of_closes
    (outside : snap.hasChild key = false)
    (closes : window.Closes snap (key, child)) (known : Node) :
    window.shift snap key child known = .unchanged snap := by
  unfold shift
  split
  · rfl
  · rename_i last isLast
    have before :=
      closes last (mem_arrange.mp (List.mem_of_getLast? isLast))
    rw [← Ordering.ne_gt_iff_isLE] at before
    have notBefore : ¬ (window.order last (key, child) == .gt) = true :=
      fun behind => before (beq_iff_eq.mp behind)
    rw [if_neg (by simp [outside]), if_neg notBefore, ite_self]

/-- After a full window has taken a child in its range, it shows the child, or is still full and
closes before it. -/
theorem Turned.settles
    (canonical : snap.Canonical) (childCanonical : child.Canonical)
    (knownCanonical : known.Canonical)
    (unreserved : key.isPriority = false)
    (full : window.limit.count ≤ snap.children.length)
    (snapInside : ∀ entry ∈ snap.children,
      window.range.contains entry = true)
    (inside : child.isEmpty = false →
      window.range.contains (key, child) = true)
    {edit : Edit} (turned : Turned window snap key child known edit) :
    edit.node.child key ≈ child ∨
      child.isEmpty = false ∧ edit.node.hasChild key = false ∧
        window.limit.count ≤ edit.node.children.length ∧
        window.Closes edit.node (key, child) := by
  cases present : child.isEmpty with
  | true =>
      have nothing := Node.equiv_empty_of_isEmpty childCanonical present
      refine .inl ?_
      rcases turned.child_self canonical childCanonical unreserved with
        shown | gone
      · exact shown
      · exact Setoid.trans gone (Setoid.symm nothing)
  | false =>
      cases turned with
      | unchanged outside behind =>
          rw [present] at behind
          exact .inr ⟨rfl, outside, full, behind.resolve_left nofun⟩
      | kept _ _ _ _ _ =>
          exact .inl
            (Node.child_setChild_self canonical childCanonical unreserved)
      | left _ isHeld _ unfit passed =>
          -- The sibling that comes next lies between two siblings in range.
          rw [present] at passed
          obtain ⟨next, isNext, before⟩ := passed.resolve_left nofun
          have between := contains_between (snapInside _ isHeld)
            (inside present) (of_next? isNext).2.2.2
            (Ordering.isLE_of_eq_lt before)
          rw [unfit next isNext] at between
          cases between
      | @replaced held _ _ closes name node isNext _ passed =>
          obtain ⟨candidate, different, outside, behind⟩ := of_next? isNext
          have nameUnreserved :=
            knownCanonical.unreserved_of_mem_children candidate
          have shrunk := canonical.setChild Node.Canonical.empty key
          rw [present] at passed
          have before :=
            Ordering.isLE_of_eq_lt (passed.resolve_left nofun)
          refine .inr ⟨rfl, ?_, ?_, ?_⟩
          · rw [Node.hasChild_eq_not_isEmpty
              (shrunk.setChild (knownCanonical.of_mem_children candidate) name)
              unreserved, Node.isEmpty_congr
                (Node.child_setChild_setChild canonical Node.Canonical.empty
                  node unreserved different.symm)]
            rfl
          · exact full.trans (Node.length_children_exchange canonical
              (knownCanonical.nonempty_of_mem_children candidate)
              nameUnreserved unreserved outside held).ge
          · exact (((closes.trans behind).trans before).remove
              unreserved).setChild nameUnreserved fun _ => before
      | entered outside _ isHeld _ _ =>
          exact .inl (Node.child_setChild_setChild canonical childCanonical
            .empty unreserved
            (Node.key_ne_of_not_hasChild canonical outside isHeld).symm)

end Window

namespace Filter

variable {filter : Filter} {snap child known : Node} {key : Key}

theorem Settled.setChild
    (settled : filter.Settled snap key child)
    (unreserved : key.isPriority = false) (known : Node) :
    filter.setChild snap key child known = .unchanged snap := by
  cases settled with
  | shown same => exact setChild_of_shown same known
  | @behind window isWindow outside full closes =>
      subst isWindow
      cases admitted : (limited window).admits (key, child) with
      | true =>
          rw [setChild_limited, clip_of_admits admitted,
            if_neg (Nat.not_lt.mpr full),
            Window.shift_of_closes outside closes, ite_self]
      | false =>
          have gone : (limited window).clip key child = .empty :=
            if_neg (Bool.eq_false_iff.mp admitted)
          refine setChild_of_shown ?_ known
          rw [Node.child_of_not_hasChild unreserved outside, gone]

theorem Settled.congr
    {other : Node} (settled : filter.Settled snap key child)
    (equal : child ≈ other) : filter.Settled snap key other := by
  cases settled with
  | shown same =>
      exact .shown (Setoid.trans same (filter.clip_congr equal key))
  | @behind window isWindow outside full closes =>
      exact .behind isWindow outside full (closes.trans
        (Ordering.isLE_of_eq_eq (window.order_of_equiv equal key)))

/-- A child that has settled is shown, unless the filter left it out. -/
theorem Settled.shows
    (settled : filter.Settled snap key child)
    (canonical : snap.Canonical) (unreserved : key.isPriority = false)
    (shown : filter.drops = false ∨ snap.hasChild key = true) :
    snap.child key ≈ child := by
  cases settled with
  | @behind window isWindow outside _ _ =>
      subst isWindow
      rw [outside] at shown
      rcases shown with absurdity | absurdity <;> cases absurdity
  | shown same =>
      rcases shown with keepsAll | held
      · rw [clip_of_keepsAll keepsAll] at same
        exact same
      · rw [Node.hasChild_eq_not_isEmpty canonical unreserved,
          Node.isEmpty_congr same, Bool.not_eq_true'] at held
        rw [clip_of_admits (admits_of_clip held)] at same
        exact same

/-- A filter that has taken a child is settled on it. -/
theorem settled_setChild
    (canonical : snap.Canonical) (childCanonical : child.Canonical)
    (knownCanonical : known.Canonical)
    (unreserved : key.isPriority = false) (holds : filter.Holds snap) :
    filter.Settled (filter.setChild snap key child known).node key child := by
  have clipped := filter.canonical_clip childCanonical key
  have taken := filter.taken_setChild snap unreserved child known
  generalize filter.setChild snap key child known = edit at taken ⊢
  cases taken with
  | shown same => exact .shown same
  | placed =>
      exact .shown (Edit.child_ofChild_self canonical clipped unreserved)
  | turned isWindow full turned =>
      subst isWindow
      rcases turned.settles canonical clipped knownCanonical unreserved full
          holds admits_clip with
        same | ⟨present, outside, stillFull, closes⟩
      · exact .shown same
      · rw [clip_of_admits (admits_of_clip present)] at closes
        exact .behind rfl outside stillFull closes

/-- A filter that may leave children out shows no leaf. -/
theorem select_leaf
    {node : Node} (drops : filter.drops = true)
    (leaf : node.isLeaf = true) : filter.select node = .empty := by
  cases node with
  | branch _ _ => cases leaf
  | leaf _ _ =>
      cases filter with
      | everything _ => cases drops
      | within _ => rfl
      | limited _ => rfl

theorem select_of_keepsAll
    (keepsAll : filter.drops = false) (node : Node) :
    filter.select node = node := by
  cases filter with
  | everything _ => rfl
  | within _ => cases keepsAll
  | limited _ => cases keepsAll

/-- Setting a priority again changes nothing. -/
@[simp]
theorem setPriority_setPriority
    (canonical : snap.Canonical) (filter : Filter)
    (priority : Option Priority) :
    filter.setPriority (filter.setPriority snap priority) priority =
      filter.setPriority snap priority := by
  cases filter with
  | everything _ => exact Node.setPriority_setPriority canonical priority
  | within _ => rfl
  | limited _ => rfl

theorem Holds.setPriority
    (holds : filter.Holds snap) (priority : Option Priority) :
    filter.Holds (filter.setPriority snap priority) := by
  cases filter with
  | everything _ => exact fun _ _ => rfl
  | within _ => exact holds
  | limited _ => exact holds

end Filter

end Replica
