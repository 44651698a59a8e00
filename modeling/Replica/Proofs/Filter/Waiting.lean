import Replica.Proofs.Filter.Settled

/-!
# Children that wait behind a window

A child in the range of a full window that the window does not hold waits behind it. When another
child is replaced, a child that waits goes on waiting, unless it is the one that slides in; and the
child that the window lets go for one that enters starts to wait. So a filter that has settled on a
child stays settled on it while others are replaced, as long as the child is known.

There is only one snapshot that is settled on all children of a node.
-/

namespace Replica

open Std

/-- A node that lacks a child of another one with no more children has a child that the other one
lacks. -/
theorem Node.exists_hasChild_of_length
    {left right : Node} (leftCanonical : left.Canonical)
    (rightCanonical : right.Canonical)
    (noMore : right.children.length ≤ left.children.length)
    {key : Key} (unreserved : key.isPriority = false)
    (outside : left.hasChild key = false)
    (held : right.hasChild key = true) :
    ∃ entry ∈ left.children, right.hasChild entry.1 = false := by
  by_contra nothing
  have named {node : Node} (canonical : node.Canonical) {name : Key}
      (nameUnreserved : name.isPriority = false)
      (isHeld : node.hasChild name = true) :
      name ∈ node.children.map (·.1) :=
    List.mem_map_of_mem
      (mem_children_of_hasChild canonical nameUnreserved isHeld)
  have distinct : (key :: left.children.map (·.1)).Nodup := by
    refine List.nodup_cons.mpr ⟨fun member => ?_,
      Sorted.nodup_keys leftCanonical.children_ascending⟩
    obtain ⟨entry, entryMember, same⟩ := List.mem_map.mp member
    exact key_ne_of_not_hasChild leftCanonical outside entryMember same
  have within : key :: left.children.map (·.1) ⊆
      right.children.map (·.1) := by
    refine List.cons_subset.mpr ⟨named rightCanonical unreserved held,
      fun name member => ?_⟩
    obtain ⟨entry, entryMember, rfl⟩ := List.mem_map.mp member
    refine named rightCanonical
      (leftCanonical.unreserved_of_mem_children entryMember) ?_
    rw [← Bool.not_eq_false]
    exact fun missing => nothing ⟨entry, entryMember, missing⟩
  have fewer := (distinct.subperm within).length_le
  rw [List.length_cons, List.length_map, List.length_map] at fewer
  omega

namespace Window

/-! ## Waiting -/

/-- A child in the range of a full window that comes behind all siblings that the window holds. -/
structure Waits (window : Window) (snap : Node) (sibling : Key × Node) :
    Prop where
  present : sibling.2.isEmpty = false
  inside : window.range.contains sibling = true
  outside : snap.hasChild sibling.1 = false
  full : window.limit.count ≤ snap.children.length
  closes : window.Closes snap sibling

variable {window : Window} {snap child known : Node} {key other : Key}

/-- Siblings do not tie, so one that waits comes strictly behind those that the window holds. -/
theorem Waits.order_of_held
    {sibling entry : Key × Node} (waits : window.Waits snap sibling)
    (canonical : snap.Canonical) (isHeld : entry ∈ snap.children) :
    window.order entry sibling = .lt :=
  order_eq_lt
    (Node.key_ne_of_not_hasChild canonical waits.outside isHeld)
    (waits.closes entry isHeld)

/-- If a known sibling waits, the next one is it or comes before it. -/
theorem Waits.exists_next?
    (waits : window.Waits snap (other, known.child other))
    (canonical : snap.Canonical) (knownCanonical : known.Canonical)
    (otherUnreserved : other.isPriority = false) (different : other ≠ key)
    {last : Key × Node} (isHeld : last ∈ snap.children) :
    ∃ next, window.next? snap known last key = some next ∧
      (window.order next (other, known.child other)).isLE = true :=
  Window.exists_next?
    (Node.mem_children_of_present knownCanonical otherUnreserved waits.present)
    different waits.outside (waits.order_of_held canonical isHeld)

end Window

namespace Filter

variable {filter : Filter} {snap child known : Node} {key other : Key}

private theorem shown_of_outside
    (childCanonical : child.Canonical) (unreserved : key.isPriority = false)
    (outside : snap.hasChild key = false)
    (noData : (filter.clip key child).isEmpty = true) :
    snap.child key ≈ filter.clip key child := by
  rw [Node.child_of_not_hasChild unreserved outside]
  exact Setoid.symm (Node.equiv_empty_of_isEmpty
    (filter.canonical_clip childCanonical key) noData)

/-- A filter has settled on the children that it shows, and a window also on those that wait. -/
theorem settled_iff
    (childCanonical : child.Canonical) (unreserved : key.isPriority = false) :
    filter.Settled snap key child ↔
      snap.child key ≈ filter.clip key child ∨
        ∃ window, filter = limited window ∧
          window.Waits snap (key, child) := by
  constructor
  · intro settled
    cases settled with
    | shown same => exact .inl same
    | @behind window isWindow outside full closes =>
        subst isWindow
        cases noData : ((limited window).clip key child).isEmpty with
        | true =>
            exact .inl
              (shown_of_outside childCanonical unreserved outside noData)
        | false =>
            have inside := admits_of_clip noData
            rw [clip_of_admits inside] at noData
            exact .inr ⟨window, rfl, noData, inside, outside, full, closes⟩
  · rintro (same | ⟨window, isWindow, waits⟩)
    · exact .shown same
    · exact .behind isWindow waits.outside waits.full waits.closes

private theorem Settled.shown_of_held
    (settled : filter.Settled snap key child)
    (held : snap.hasChild key = true) :
    snap.child key ≈ filter.clip key child := by
  cases settled with
  | shown same => exact same
  | behind _ outside _ _ =>
      rw [held] at outside
      cases outside

/-- A filter stays settled on a child that is left as it is, if a window that it waits behind
stays full and lets no sibling in behind it. -/
theorem Settled.carry
    {edited : Node} (settled : filter.Settled snap key child)
    (childCanonical : child.Canonical) (canonical : snap.Canonical)
    (editedCanonical : edited.Canonical)
    (unreserved : key.isPriority = false)
    (untouched : edited.child key = snap.child key)
    (stays : ∀ {window : Window}, filter = limited window →
      window.Waits snap (key, child) →
        window.limit.count ≤ edited.children.length ∧
          window.Closes edited (key, child)) :
    filter.Settled edited key child := by
  rcases (settled_iff childCanonical unreserved).mp settled with
    same | ⟨window, isWindow, waits⟩
  · rw [← untouched] at same
    exact .shown same
  · obtain ⟨full, closes⟩ := stays isWindow waits
    refine .behind isWindow ?_ full closes
    rw [Node.hasChild_eq_not_isEmpty editedCanonical unreserved, untouched,
      ← Node.hasChild_eq_not_isEmpty canonical unreserved]
    exact waits.outside

end Filter

/-! ## Replacing another child -/

namespace Window

variable {window : Window} {snap child known : Node} {key other : Key}

/-- A full window lets no sibling in behind a known one that waits, and stays full before it. -/
theorem Turned.closes_of_waits
    (canonical : snap.Canonical) (childCanonical : child.Canonical)
    (knownCanonical : known.Canonical)
    (unreserved : key.isPriority = false)
    (otherUnreserved : other.isPriority = false) (different : other ≠ key)
    (snapInside : ∀ entry ∈ snap.children,
      window.range.contains entry = true)
    {edit : Edit} (turned : window.Turned snap key child known edit)
    (waits : window.Waits snap (other, known.child other)) :
    window.limit.count ≤ edit.node.children.length ∧
      window.Closes edit.node (other, known.child other) := by
  cases turned with
  | unchanged _ _ => exact ⟨waits.full, waits.closes⟩
  | kept held present isHeld _ first =>
      obtain ⟨next, isNext, before⟩ :=
        waits.exists_next? canonical knownCanonical otherUnreserved different
          isHeld
      exact ⟨waits.full.trans (Node.length_children_setChild_of_present
          unreserved held present).ge,
        waits.closes.setChild unreserved fun _ =>
          TransCmp.isLE_trans (first next isNext) before⟩
  | left _ isHeld _ unfit _ =>
      -- The next sibling would lie between the last one and the one that waits.
      obtain ⟨next, isNext, before⟩ :=
        waits.exists_next? canonical knownCanonical otherUnreserved different
          isHeld
      have inside := contains_between (snapInside _ isHeld) waits.inside
        (of_next? isNext).2.2.2 before
      rw [unfit next isNext] at inside
      cases inside
  | @replaced held _ isHeld _ name node isNext _ _ =>
      obtain ⟨candidate, _, outside, _⟩ := of_next? isNext
      have nameUnreserved :=
        knownCanonical.unreserved_of_mem_children candidate
      obtain ⟨next, isOther, before⟩ :=
        waits.exists_next? canonical knownCanonical otherUnreserved different
          isHeld
      rw [isNext] at isOther
      cases isOther
      exact ⟨waits.full.trans (Node.length_children_exchange canonical
          (knownCanonical.nonempty_of_mem_children candidate) nameUnreserved
          unreserved outside held).ge,
        (waits.closes.remove unreserved).setChild nameUnreserved
          fun _ => before⟩
  | @entered outside present last isHeld _ before =>
      have lastUnreserved := canonical.unreserved_of_mem_children isHeld
      exact ⟨waits.full.trans (Node.length_children_exchange_after canonical
          childCanonical present unreserved lastUnreserved outside
          (Node.hasChild_of_mem_children canonical isHeld)).ge,
        (waits.closes.setChild unreserved fun _ =>
          TransCmp.isLE_trans (Ordering.isLE_of_eq_lt before)
            (waits.closes last isHeld)).remove lastUnreserved⟩

/-- A full window stays settled on a known child while another one is replaced. -/
theorem Turned.settled_of_ne
    (canonical : snap.Canonical) (childCanonical : child.Canonical)
    (knownCanonical : known.Canonical)
    (unreserved : key.isPriority = false)
    (otherUnreserved : other.isPriority = false) (different : other ≠ key)
    (full : window.limit.count ≤ snap.children.length)
    (holds : (Filter.limited window).Holds snap)
    {edit : Edit} (turned : window.Turned snap key child known edit)
    (editedCanonical : edit.node.Canonical)
    (settled :
      (Filter.limited window).Settled snap other (known.child other)) :
    (Filter.limited window).Settled edit.node other (known.child other) := by
  rcases turned.child_of_ne canonical childCanonical knownCanonical
      unreserved otherUnreserved different with
    untouched | ⟨inside, slid⟩ | ⟨node, isHeld, outside, noFewer, closes⟩
  · refine settled.carry (knownCanonical.child other) canonical
      editedCanonical otherUnreserved untouched fun isWindow waits => ?_
    cases isWindow
    exact turned.closes_of_waits canonical childCanonical knownCanonical
      unreserved otherUnreserved different holds waits
  · have admitted : (Filter.limited window).clip other (known.child other) =
        known.child other := Filter.clip_of_admits inside
    refine .shown ?_
    rw [admitted]
    exact slid
  · -- The window held it as it is known, so it starts to wait.
    have shown := settled.shows canonical otherUnreserved
      (.inr (Node.hasChild_of_mem_children canonical isHeld))
    rw [Node.child_of_mem_children canonical isHeld] at shown
    exact .behind rfl outside (full.trans noFewer) (closes.trans
      (Ordering.isLE_of_eq_eq (window.order_of_equiv shown other)))

end Window

namespace Filter

variable {filter : Filter} {snap child known : Node} {key other : Key}

/-- A filter stays settled on a known child while another one is replaced. -/
theorem settled_setChild_of_ne
    (canonical : snap.Canonical) (childCanonical : child.Canonical)
    (knownCanonical : known.Canonical)
    (unreserved : key.isPriority = false)
    (otherUnreserved : other.isPriority = false) (different : other ≠ key)
    (holds : filter.Holds snap)
    (settled : filter.Settled snap other (known.child other)) :
    filter.Settled (filter.setChild snap key child known).node other
      (known.child other) := by
  have clipped := filter.canonical_clip childCanonical key
  have placed
      (stays : ∀ {window : Window}, filter = limited window →
        snap.children.length < window.limit.count) :
      filter.Settled (Edit.ofChild snap key (filter.clip key child)).node
        other (known.child other) :=
    settled.carry (knownCanonical.child other) canonical
      (Edit.canonical_ofChild canonical clipped key) otherUnreserved
      (Edit.child_ofChild_of_ne canonical _ otherUnreserved different)
      fun isWindow waits => absurd waits.full (Nat.not_le.mpr (stays isWindow))
  cases filter with
  | everything _ => exact placed nofun
  | within _ => exact placed nofun
  | limited window =>
      rw [setChild_limited]
      split
      · exact settled
      · split
        · rename_i room
          refine placed fun isWindow => ?_
          cases isWindow
          exact room
        · rename_i full
          have turned := window.turned_shift snap unreserved
            ((limited window).clip key child) known
          exact turned.settled_of_ne canonical clipped knownCanonical
            unreserved otherUnreserved different (Nat.not_lt.mp full) holds
            (turned.sound canonical clipped knownCanonical
              unreserved).canonical settled

/-! ## Whole nodes -/

/-- What a window does not keep of a node waits behind what it keeps. -/
theorem waits_select
    {node : Node} {window : Window} (canonical : node.Canonical)
    {sibling : Key × Node} (member : sibling ∈ node.children)
    (inside : window.range.contains sibling = true)
    (outside : ((limited window).select node).hasChild sibling.1 = false) :
    window.Waits ((limited window).select node) sibling := by
  have left : sibling ∈ ((window.arrange node).filter
      window.range.contains).drop window.limit.count := by
    have arranged : sibling ∈ (window.arrange node).filter
        window.range.contains :=
      List.mem_filter.mpr ⟨Window.mem_arrange.mpr member, inside⟩
    rw [← List.take_append_drop window.limit.count
      ((window.arrange node).filter _)] at arranged
    refine (List.mem_append.mp arranged).resolve_left fun isKept => ?_
    have selected := (mem_children_select canonical window).mpr isKept
    rw [Node.hasChild_of_mem_children (canonical_select canonical _) selected]
      at outside
    cases outside
  refine ⟨canonical.nonempty_of_mem_children member, inside, outside, ?_, ?_⟩
  · have more := List.length_pos_of_mem left
    rw [List.length_drop] at more
    rw [length_children_select canonical, Window.kept, List.length_take]
    omega
  · intro entry isChild
    have sorted :=
      (window.pairwise_arrange node).filter window.range.contains
    rw [← List.take_append_drop window.limit.count
      ((window.arrange node).filter _)] at sorted
    exact (List.pairwise_append.mp sorted).2.2 entry
      ((mem_children_select canonical window).mp isChild) sibling left

/-- A filter that has taken a whole node is settled on all its children. -/
theorem settled_select
    {node : Node} (canonical : node.Canonical)
    (unreserved : key.isPriority = false) (filter : Filter) :
    filter.Settled (filter.select node) key (node.child key) := by
  have selectCanonical := canonical_select canonical filter
  cases shown : (filter.select node).hasChild key with
  | true =>
      have member :=
        Node.mem_children_of_hasChild selectCanonical unreserved shown
      have same := child_select_of_present canonical filter unreserved
        (selectCanonical.nonempty_of_mem_children member)
      have admitted := holds_select canonical filter _ member
      rw [same] at admitted
      refine .shown ?_
      rw [clip_of_admits admitted, same]
  | false =>
      refine (settled_iff (canonical.child key) unreserved).mpr ?_
      cases present : (filter.clip key (node.child key)).isEmpty with
      | true =>
          exact .inl (shown_of_outside (canonical.child key) unreserved shown
            present)
      | false =>
          have admitted := admits_of_clip present
          rw [clip_of_admits admitted] at present
          have member :=
            Node.mem_children_of_present canonical unreserved present
          have missing : (key, node.child key) ∉
              (filter.select node).children := fun selected => by
            rw [Node.hasChild_of_mem_children selectCanonical selected]
              at shown
            cases shown
          cases filter with
          | everything _ => exact absurd member missing
          | within range =>
              refine absurd ?_ missing
              change _ ∈ (Node.ofSorted _ none).children
              rw [Node.children_ofSorted]
              exact List.mem_filter.mpr ⟨member, admitted⟩
          | limited window =>
              exact .inr ⟨window, rfl,
                waits_select canonical member admitted shown⟩

section

variable {left right target : Node} (leftCanonical : left.Canonical)
  (rightCanonical : right.Canonical) (targetCanonical : target.Canonical)
  (leftSettled : ∀ key : Key, key.isPriority = false →
    filter.Settled left key (target.child key))
  (rightSettled : ∀ key : Key, key.isPriority = false →
    filter.Settled right key (target.child key))

include leftCanonical rightCanonical targetCanonical leftSettled rightSettled

/-- A child that waits behind one window is not in another one that has settled on the same
children: the other one would lack a child of the first, which would wait in turn. -/
theorem not_hasChild_of_waits
    {window : Window} (isWindow : filter = limited window)
    (rightFew : right.children.length ≤ window.limit.count)
    (unreserved : key.isPriority = false)
    (waits : window.Waits left (key, target.child key)) :
    right.hasChild key = false := by
  rw [← Bool.not_eq_true]
  intro held
  obtain ⟨entry, entryMember, missing⟩ :=
    Node.exists_hasChild_of_length leftCanonical rightCanonical
      (rightFew.trans waits.full) unreserved waits.outside held
  have entryUnreserved := leftCanonical.unreserved_of_mem_children entryMember
  have entryPresent := leftCanonical.nonempty_of_mem_children entryMember
  have entryClipped : entry.2 ≈ filter.clip entry.1 (target.child entry.1) := by
    rw [← Node.child_of_mem_children leftCanonical entryMember]
    exact (leftSettled entry.1 entryUnreserved).shown_of_held
      (Node.hasChild_of_mem_children leftCanonical entryMember)
  have entryShown := equiv_of_equiv_clip entryClipped entryPresent
  have keyShown : right.child key ≈ target.child key :=
    (rightSettled key unreserved).shows rightCanonical unreserved (.inr held)
  have entryBefore : window.order (entry.1, target.child entry.1)
      (key, target.child key) = .lt := by
    rw [← TransCmp.congr_left (window.order_of_equiv entryShown entry.1)]
    exact waits.order_of_held leftCanonical entryMember
  rcases (settled_iff (targetCanonical.child entry.1) entryUnreserved).mp
      (rightSettled entry.1 entryUnreserved) with
    same | ⟨other, isOther, entryWaits⟩
  · rw [Node.child_of_not_hasChild entryUnreserved missing] at same
    rw [Node.isEmpty_congr entryClipped, ← Node.isEmpty_congr same]
      at entryPresent
    cases entryPresent
  · cases isWindow.symm.trans isOther
    have keyBefore : window.order (key, target.child key)
        (entry.1, target.child entry.1) = .lt := by
      rw [← TransCmp.congr_left (window.order_of_equiv keyShown key)]
      exact entryWaits.order_of_held rightCanonical
        (Node.mem_children_of_hasChild rightCanonical unreserved held)
    rw [OrientedCmp.gt_of_lt keyBefore] at entryBefore
    cases entryBefore

/-- The children on which a filter has settled decide what it shows. -/
theorem child_equiv_of_settled
    (leftFew : ∀ {window : Window}, filter = limited window →
      left.children.length ≤ window.limit.count)
    (rightFew : ∀ {window : Window}, filter = limited window →
      right.children.length ≤ window.limit.count)
    (unreserved : key.isPriority = false) :
    left.child key ≈ right.child key := by
  have childCanonical := targetCanonical.child key
  rcases (settled_iff childCanonical unreserved).mp
      (leftSettled key unreserved) with
    leftSame | ⟨window, isWindow, waits⟩
  · rcases (settled_iff childCanonical unreserved).mp
        (rightSettled key unreserved) with
      rightSame | ⟨window, isWindow, waits⟩
    · exact Setoid.trans leftSame (Setoid.symm rightSame)
    · have outside := not_hasChild_of_waits rightCanonical leftCanonical
        targetCanonical rightSettled leftSettled isWindow (leftFew isWindow)
        unreserved waits
      rw [Node.child_of_not_hasChild unreserved outside,
        Node.child_of_not_hasChild unreserved waits.outside]
  · have outside := not_hasChild_of_waits leftCanonical rightCanonical
      targetCanonical leftSettled rightSettled isWindow (rightFew isWindow)
      unreserved waits
    rw [Node.child_of_not_hasChild unreserved outside,
      Node.child_of_not_hasChild unreserved waits.outside]

end

end Filter

end Replica
