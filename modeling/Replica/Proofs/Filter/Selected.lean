import Replica.Proofs.Filter.Settled
import Replica.Proofs.Ledger.Netting
import Replica.Proofs.View.Difference

/-!
# What a filter selects of a whole node

The load-all filter keeps a node as it is. Any other filter keeps children alone, and those that it
keeps are told by their bounds and, under a limit, by how many siblings in range stand before them.
-/

namespace Replica

open Std

/-! ## The first entries of an ordered list -/

/-- In a list in strict order, an entry is among the first ones if few stand before it. -/
theorem mem_take_iff_countP
    {α : Type} {order : α → α → Ordering} [TransCmp order]
    {entries : List α}
    (strict : entries.Pairwise fun left right => order left right = .lt)
    {entry : α} {count : Nat} :
    entry ∈ entries.take count ↔
      entry ∈ entries ∧
        entries.countP (fun other => order other entry == .lt) < count := by
  induction entries generalizing count with
  | nil => simp
  | cons first rest inductionHypothesis =>
      obtain ⟨least, restStrict⟩ := List.pairwise_cons.mp strict
      cases count with
      | zero => simp
      | succ count =>
          rw [List.take_succ_cons, List.mem_cons, List.mem_cons,
            inductionHypothesis restStrict, List.countP_cons]
          by_cases isFirst : entry = first
          · subst isFirst
            have noneBefore :
                rest.countP (fun other => order other entry == .lt) = 0 := by
              refine List.countP_eq_zero.mpr fun other member => ?_
              rw [OrientedCmp.gt_of_lt (least other member)]
              exact Bool.false_ne_true
            have notSelf : (order entry entry == .lt) = false := by
              rw [@ReflCmp.compare_self _ order]
              rfl
            simp [noneBefore, notSelf]
          · refine ⟨?_, ?_⟩
            · rintro (same | ⟨member, few⟩)
              · exact absurd same isFirst
              · refine ⟨.inr member, ?_⟩
                rw [least entry member]
                simpa using few
            · rintro ⟨same | member, few⟩
              · exact absurd same isFirst
              · rw [least entry member] at few
                exact .inr ⟨member, by simpa using few⟩

/-! ## The children that a selection keeps -/

/-- Whether a limit counts the first of two siblings before the second. -/
def Limit.before (limit : Limit) (index : Index) (a b : Key × Node) : Bool :=
  match limit with
  | .first _ => index.order a b == .lt
  | .last _ => index.order b a == .lt

namespace Selection

/-- How many children in range a limit counts before one of them. -/
def ahead (selection : Selection) (limit : Limit) (node : Node)
    (child : Key × Node) : Nat :=
  node.children.countP fun other =>
    limit.before selection.index other child &&
      selection.range.contains other

/-- Whether a selection keeps a child of a node: the child is in range, and fewer children in range
stand before it than the limit allows. -/
def keeps (selection : Selection) (node : Node) (child : Key × Node) : Bool :=
  selection.range.contains child &&
    selection.limit?.all fun limit =>
      decide (selection.ahead limit node child < limit.count)

variable {selection : Selection} {node : Node}

/-- A window keeps the children in range that few others in range stand before. -/
theorem mem_kept_iff
    (canonical : node.Canonical) (limit : Limit) {child : Key × Node} :
    child ∈ Window.kept ⟨selection.range, limit⟩ node ↔
      child ∈ node.children ∧ selection.range.contains child = true ∧
        selection.ahead limit node child < limit.count := by
  let window : Window := ⟨selection.range, limit⟩
  have strict := (window.strict_arrange canonical).filter
    selection.range.contains
  have sameCount :
      ((window.arrange node).filter selection.range.contains).countP
          (fun other => window.order other child == .lt) =
        selection.ahead limit node child := by
    rw [List.countP_filter, (window.perm_arrange node).countP_eq]
    refine List.countP_congr fun other _ => ?_
    cases limit <;> rfl
  change child ∈ List.take limit.count _ ↔ _
  rw [mem_take_iff_countP strict, sameCount, List.mem_filter,
    Window.mem_arrange, and_assoc]

/-- With bounds or a limit, what is selected of a node are the children that are kept, under no
priority. Of a leaf nothing is left. -/
theorem select_eq_filter
    (restricted : selection.keepsAll = false) (canonical : node.Canonical) :
    selection.filter.select node =
      .ofSorted (node.children.filter (selection.keeps node)) none := by
  cases limited : selection.limit? with
  | none =>
      rw [filter_of_bounds limited restricted]
      refine congrArg (Node.ofSorted · none)
        (List.filter_congr fun child _ => ?_)
      rw [keeps, limited, Option.all_none, Bool.and_true]
  | some limit =>
      rw [filter_of_limit limited]
      refine congrArg (Node.ofSorted · none)
        (List.filter_congr fun child member => ?_)
      rw [Bool.eq_iff_iff, Node.contains_keys_iff canonical
          (Filter.kept_subset _ node) member,
        mem_kept_iff canonical, keeps, limited, Option.all_some,
        Bool.and_eq_true, decide_eq_true_eq]
      exact and_iff_right member

/-- What has been selected is selected again, since no more siblings stand before a child than did
before. -/
@[simp]
theorem select_select
    (canonical : node.Canonical) :
    selection.filter.select (selection.filter.select node) =
      selection.filter.select node := by
  cases restricted : selection.keepsAll with
  | true =>
      rw [filter_of_keepsAll restricted]
      rfl
  | false =>
      rw [select_eq_filter restricted
          (Filter.canonical_select canonical selection.filter),
        select_eq_filter restricted canonical, Node.children_ofSorted]
      refine congrArg (Node.ofSorted · none)
        (List.filter_eq_self.mpr fun child member => ?_)
      obtain ⟨_, kept⟩ := List.mem_filter.mp member
      rw [keeps, Bool.and_eq_true] at kept ⊢
      refine ⟨kept.1, ?_⟩
      cases limited : selection.limit? with
      | none => rfl
      | some limit =>
          rw [limited, Option.all_some, decide_eq_true_eq] at kept
          rw [Option.all_some, decide_eq_true_eq]
          refine Nat.lt_of_le_of_lt ?_ kept.2
          rw [ahead, Node.children_ofSorted]
          exact List.filter_sublist.countP_le

end Selection

/-! ## Taking children away one after the other -/

namespace Range

/-- Walks along siblings and takes from a node those that are out of range, and those that come
when there is no more room. -/
def prune (range : Range) : Option Nat → List (Key × Node) → Node → Node
  | _, [], node => node
  | room?, sibling :: rest, node =>
      if room? != some 0 && range.contains sibling then
        range.prune (room?.map (· - 1)) rest node
      else range.prune room? rest (node.setChild sibling.1 .empty)

/-- The siblings that such a walk leaves in place. -/
def spared (range : Range) (room? : Option Nat)
    (siblings : List (Key × Node)) : List (Key × Node) :=
  match room? with
  | some room => (siblings.filter range.contains).take room
  | none => siblings.filter range.contains

variable {range : Range} {room? : Option Nat} {sibling : Key × Node}
  {siblings : List (Key × Node)}

private theorem spared_cons_of_kept
    (kept : (room? != some 0 && range.contains sibling) = true) :
    range.spared room? (sibling :: siblings) =
      sibling :: range.spared (room?.map (· - 1)) siblings := by
  obtain ⟨room, inside⟩ := Bool.and_eq_true_iff.mp kept
  match room? with
  | none => exact List.filter_cons_of_pos inside
  | some 0 => cases room
  | some (count + 1) =>
      rw [spared, List.filter_cons_of_pos inside, List.take_succ_cons]
      rfl

private theorem spared_cons_of_taken
    (taken : ¬ (room? != some 0 && range.contains sibling) = true) :
    range.spared room? (sibling :: siblings) = range.spared room? siblings := by
  match room? with
  | none => exact List.filter_cons_of_neg taken
  | some 0 => rfl
  | some (count + 1) =>
      have outside : ¬ range.contains sibling = true := taken
      rw [spared, List.filter_cons_of_neg outside]
      rfl

private theorem spared_subset : range.spared room? siblings ⊆ siblings := by
  intro sibling member
  cases room? with
  | none => exact (List.mem_filter.mp member).1
  | some count => exact (List.mem_filter.mp (List.mem_of_mem_take member)).1

end Range

private theorem Node.ofSorted_none (children : List (Key × Node)) :
    ofSorted children none = .branch children none := by
  cases children <;> rfl

/-- A child that is taken away from a node without priority leaves the others. -/
theorem Node.setChild_empty_ofSorted
    {children : List (Key × Node)}
    (canonical : (ofSorted children none).Canonical)
    {key : Key} (unreserved : key.isPriority = false) :
    (ofSorted children none).setChild key .empty =
      ofSorted (children.filter (·.1 != key)) none := by
  have ascending := canonical.children_ascending
  rw [children_ofSorted] at ascending
  rw [← Sorted.erase_eq_filter key ascending, ofSorted_none, setChild,
    if_neg (by simp [unreserved])]
  cases found : Sorted.find? key children with
  | none =>
      rw [Sorted.erase_of_absent found]
      exact (ofSorted_none children).symm
  | some existing =>
      have member : (key, existing) ∈ (ofSorted children none).children := by
        rw [children_ofSorted]
        exact Sorted.mem_of_find?_eq_some found
      have present := canonical.nonempty_of_mem_children member
      have different : ¬ existing.same .empty = true := fun same => by
        rw [isEmpty_congr (equiv_iff.mpr same)] at present
        cases present
      dsimp only
      rw [if_neg different]
      rfl

private theorem Node.setPriority_none
    {node : Node} (canonical : node.Canonical)
    (branch : node.isLeaf = false) :
    node.setPriority none = ofSorted node.children none := by
  cases node with
  | leaf _ _ => cases branch
  | branch children priority =>
      cases children with
      | nil =>
          rw [canonical.eq_empty rfl]
          rfl
      | cons first rest => cases priority <;> rfl

namespace Range

private theorem prune_eq_filter
    (range : Range) (room? : Option Nat) {siblings : List (Key × Node)}
    (distinct : (siblings.map (·.1)).Nodup)
    (unreserved : ∀ sibling ∈ siblings, sibling.1.isPriority = false)
    {children : List (Key × Node)}
    (canonical : (Node.ofSorted children none).Canonical) :
    range.prune room? siblings (.ofSorted children none) =
      .ofSorted (children.filter fun child =>
        decide (child.1 ∉ siblings.map (·.1) ∨
          child.1 ∈ (range.spared room? siblings).map (·.1))) none := by
  induction siblings generalizing room? children with
  | nil => simp [prune]
  | cons sibling rest inductionHypothesis =>
      obtain ⟨isNew, restDistinct⟩ := List.nodup_cons.mp distinct
      obtain ⟨first, restUnreserved⟩ := List.forall_mem_cons.mp unreserved
      rw [prune]
      split
      · rename_i kept
        rw [inductionHypothesis _ restDistinct restUnreserved canonical,
          spared_cons_of_kept kept]
        refine congrArg (Node.ofSorted · none)
          (List.filter_congr fun child _ => decide_eq_decide.mpr ?_)
        rw [List.map_cons, List.map_cons, List.mem_cons, List.mem_cons]
        by_cases here : child.1 = sibling.1
        · rw [here]
          exact iff_of_true (.inl isNew) (.inr (.inl rfl))
        · simp only [here, false_or]
      · rename_i taken
        have shrunk := canonical.setChild Node.Canonical.empty sibling.1
        rw [Node.setChild_empty_ofSorted canonical first] at shrunk ⊢
        rw [inductionHypothesis _ restDistinct restUnreserved shrunk,
          spared_cons_of_taken taken, List.filter_filter]
        refine congrArg (Node.ofSorted · none)
          (List.filter_congr fun child _ => ?_)
        rw [Bool.eq_iff_iff, Bool.and_eq_true, decide_eq_true_eq,
          decide_eq_true_eq, bne_iff_ne, List.map_cons, List.mem_cons]
        by_cases here : child.1 = sibling.1
        · have notSpared :
              sibling.1 ∉ (range.spared room? rest).map (·.1) :=
            fun member => isNew (List.map_subset _ spared_subset member)
          simp only [here, notSpared, ne_eq, not_true_eq_false, and_false,
            true_or, or_self]
        · simp only [here, false_or, ne_eq, not_false_eq_true, and_true]

end Range

namespace Selection

variable {selection : Selection} {node : Node}

/-- Selects by taking children away: of a node that is no leaf, those that a walk from the kept end
finds out of range or without room. -/
def prune (selection : Selection) (node : Node) : Node :=
  if node.isLeaf then .empty
  else
    match selection.limit? with
    | none =>
        selection.range.prune none node.children (node.setPriority none)
    | some limit =>
        selection.range.prune (some limit.count)
          (Window.arrange ⟨selection.range, limit⟩ node)
          (node.setPriority none)

/-- A walk along all children leaves those that it spares. -/
theorem prune_eq_spared
    (canonical : node.Canonical) (branch : node.isLeaf = false)
    {room? : Option Nat} {siblings : List (Key × Node)}
    (same : siblings.Perm node.children) (range : Range) :
    range.prune room? siblings (node.setPriority none) =
      .ofSorted (node.children.filter fun child =>
        (range.spared room? siblings).map (·.1) |>.contains child.1) none := by
  have bareCanonical := canonical.setPriority none
  rw [Node.setPriority_none canonical branch] at bareCanonical ⊢
  rw [Range.prune_eq_filter range room?
    ((same.map _).nodup_iff.mpr
      (Sorted.nodup_keys canonical.children_ascending))
    (fun sibling member =>
      canonical.unreserved_of_mem_children (same.mem_iff.mp member))
    bareCanonical]
  refine congrArg (Node.ofSorted · none)
    (List.filter_congr fun child member => ?_)
  have walked : child.1 ∈ siblings.map (·.1) :=
    List.mem_map_of_mem (same.mem_iff.mpr member)
  rw [Bool.eq_iff_iff, decide_eq_true_eq, List.contains_iff_mem]
  exact or_iff_right (not_not_intro walked)

/-- Taking children away one after the other comes to what is selected. -/
theorem select_eq_prune
    (restricted : selection.keepsAll = false) (canonical : node.Canonical) :
    selection.filter.select node = selection.prune node := by
  unfold prune
  split
  · rename_i isLeaf
    have childless : node.children = [] := by
      cases node with
      | leaf _ _ => rfl
      | branch _ _ => cases isLeaf
    rw [select_eq_filter restricted canonical, childless]
    rfl
  · rename_i notLeaf
    have branch : node.isLeaf = false := by simpa using notLeaf
    split
    · rename_i unlimited
      rw [filter_of_bounds unlimited restricted,
        prune_eq_spared canonical branch (List.Perm.refl _)]
      refine congrArg (Node.ofSorted · none)
        (List.filter_congr fun child member => ?_)
      rw [Bool.eq_iff_iff,
        Node.contains_keys_iff canonical Range.spared_subset member]
      exact (List.mem_filter.trans (and_iff_right member)).symm
    · rename_i limit limited
      rw [filter_of_limit limited, prune_eq_spared canonical branch
        (Window.perm_arrange ⟨selection.range, limit⟩ node)]
      rfl

end Selection

/-! ## The report of a whole node -/

namespace Edit

variable {old new : Node} (oldCanonical : old.Canonical)
  (newCanonical : new.Canonical)

include oldCanonical newCanonical

private theorem filter_removals
    {key : Key} (unreserved : key.isPriority = false) :
    (removals old new).filter (·.key? == some key) =
      if !(old.child key).isEmpty && (new.child key).isEmpty then
        [.removed key (old.child key)]
      else [] := by
  have gone := Node.hasChild_eq_not_isEmpty newCanonical unreserved
  rw [removals, List.filter_map]
  change List.map _ (List.filter (fun child : Key × Node =>
    some child.1 == some key) _) = _
  simp only [Option.some_beq_some]
  rw [Sorted.filter_key_eq
      (Sorted.ascending_filter _ oldCanonical.children_ascending),
    Sorted.find?_filter _ oldCanonical.children_ascending,
    Node.find?_children oldCanonical unreserved]
  simp only [gone, Bool.not_not]
  cases (old.child key).isEmpty with
  | true => rfl
  | false =>
      cases (new.child key).isEmpty with
      | true => rfl
      | false => rfl

omit oldCanonical in
private theorem filter_arrivals
    {key : Key} (unreserved : key.isPriority = false) :
    (arrivals old new).filter (·.key? == some key) =
      if (new.child key).isEmpty then []
      else if (old.child key).isEmpty then [.added key (new.child key)]
      else if (old.child key).same (new.child key) then []
      else [.changed key (new.child key) (old.child key)] := by
  have named (child : Key × Node) :
      Option.filter (·.key? == some key)
          (if (old.child child.1).isEmpty then
            some (Change.added child.1 child.2)
          else if (old.child child.1).same child.2 then none
          else some (.changed child.1 child.2 (old.child child.1))) =
        if child.1 == key then
          if (old.child child.1).isEmpty then
            some (Change.added child.1 child.2)
          else if (old.child child.1).same child.2 then none
          else some (.changed child.1 child.2 (old.child child.1))
        else none := by
    split
    · simp [Option.filter, Change.key?]
    · split
      · simp
      · simp [Option.filter, Change.key?]
  rw [arrivals, List.filter_filterMap]
  simp only [named]
  rw [← List.filterMap_filter, Sorted.filter_key_eq
      newCanonical.children_ascending,
    Node.find?_children newCanonical unreserved]
  cases (new.child key).isEmpty with
  | true => rfl
  | false =>
      simp only [Bool.false_eq_true, if_false, Option.toList_some,
        List.map_cons, List.map_nil, List.filterMap_cons, List.filterMap_nil]
      cases (old.child key).isEmpty with
      | true => rfl
      | false =>
          cases (old.child key).same (new.child key) with
          | true => rfl
          | false => rfl

/-- Of each child the report of a whole node tells the difference, and nothing else. -/
theorem filter_changes_ofNode
    {key : Key} (unreserved : key.isPriority = false) :
    (ofNode old new).changes.filter (·.key? == some key) =
      (Change.between? key (old.child key) (new.child key)).toList := by
  change (removals old new ++ arrivals old new).filter _ = _
  rw [List.filter_append,
    filter_removals oldCanonical newCanonical unreserved,
    filter_arrivals newCanonical unreserved, Change.between?]
  cases same : (old.child key).same (new.child key) with
  | true =>
      rw [Node.isEmpty_congr (Node.equiv_iff.mpr same)]
      cases (new.child key).isEmpty with
      | true => rfl
      | false => rfl
  | false =>
      cases wasEmpty : (old.child key).isEmpty with
      | false => cases (new.child key).isEmpty <;> rfl
      | true =>
          cases isEmpty : (new.child key).isEmpty with
          | false => rfl
          | true =>
              rw [(oldCanonical.child key).eq_empty wasEmpty,
                (newCanonical.child key).eq_empty isEmpty,
                Node.same_refl] at same
              cases same

/-- An edit reports exactly how the children of a node differ from those it has afterwards: every
change is one of the data of a child, each child has its own change and no other, and the ledger
takes all of them as they are. -/
structure Reports (old : Node) (edit : Edit) : Prop where
  named : ∀ change ∈ edit.changes, change.kind.finds?.isSome = true ∧
    ∃ key : Key, change.key? = some key ∧ key.isPriority = false
  each : ∀ key : Key, key.isPriority = false →
    edit.changes.filter (·.key? == some key) =
      (Change.between? key (old.child key) (edit.node.child key)).toList
  recorded : ∃ ledger, Ledger.recordAll [] edit.changes = .ok ledger ∧
    ∀ key : Key, Sorted.find? key ledger =
      if key.isPriority then none
      else Change.between? key (old.child key) (edit.node.child key)

private theorem named_ofNode :
    ∀ change ∈ (ofNode old new).changes,
      change.kind.finds?.isSome = true ∧
        ∃ key : Key, change.key? = some key ∧ key.isPriority = false := by
  intro change member
  obtain ⟨key, unreserved, accurate⟩ :=
    accurate_ofNode oldCanonical newCanonical change member
  refine ⟨?_, key, accurate.key?_eq, unreserved⟩
  cases accurate <;> rfl

private theorem Reports.ofNode : Reports old (ofNode old new) where
  named := named_ofNode oldCanonical newCanonical
  each := fun _ unreserved =>
    filter_changes_ofNode oldCanonical newCanonical unreserved
  recorded := by
    have named := named_ofNode oldCanonical newCanonical
    obtain ⟨ledger, all, finds⟩ := @Ledger.recordAll_of_distinct _ []
      (distinct_ofNode oldCanonical newCanonical)
      fun change member => by
        obtain ⟨concernsData, key, isNamed, unreserved⟩ := named change member
        exact ⟨concernsData, key, isNamed, unreserved, rfl⟩
    refine ⟨ledger, all, fun key => ?_⟩
    rw [finds key, Sorted.find?_nil, Option.or_none]
    split
    · rename_i reserved
      refine List.find?_eq_none.mpr fun change member isNamed => ?_
      obtain ⟨_, other, otherNamed, unreserved⟩ := named change member
      rw [otherNamed] at isNamed
      rw [Option.some.inj (eq_of_beq isNamed), reserved] at unreserved
      cases unreserved
    · rename_i unreserved
      rw [← List.head?_filter, filter_changes_ofNode oldCanonical
        newCanonical (by simpa using unreserved), Option.head?_toList]
      rfl

omit oldCanonical in
/-- A node that stays is no change. -/
theorem ofNode_self : ofNode new new = unchanged new := by
  have nothing : (ofNode new new).changes = [] := by
    refine List.eq_nil_iff_forall_not_mem.mpr fun change member => ?_
    obtain ⟨_, key, named, unreserved⟩ :=
      named_ofNode newCanonical newCanonical change member
    have reported : change ∈
        (ofNode new new).changes.filter (·.key? == some key) :=
      List.mem_filter.mpr ⟨member, by rw [named]; exact BEq.rfl⟩
    rw [filter_changes_ofNode newCanonical newCanonical unreserved,
      Change.between?_of_same (Setoid.refl _)] at reported
    cases reported
  rw [unchanged, ← nothing]
  rfl

end Edit

/-! ## Whole nodes -/

namespace Selection

/-- One node is what a selection leaves of another one: the whole node if the selection keeps all,
nothing of a leaf otherwise, and of any other node exactly the children that are kept, under no
priority. -/
structure Selects (selection : Selection) (whole part : Node) : Prop where
  everything : selection.keepsAll = true → part = whole
  leaf : selection.keepsAll = false → whole.isLeaf = true → part = .empty
  bare : selection.keepsAll = false →
    part.isLeaf = false ∧ part.priority? = none
  children : selection.keepsAll = false → ∀ child : Key × Node,
    child ∈ part.children ↔
      child ∈ whole.children ∧ selection.keeps whole child = true
  pruned : selection.keepsAll = false → part = selection.prune whole

private theorem selects_select
    (selection : Selection) {node : Node} (canonical : node.Canonical) :
    selection.Selects node (selection.filter.select node) where
  everything := fun keepsAll => by
    rw [filter_of_keepsAll keepsAll]
    rfl
  leaf := fun restricted isLeaf => by
    rw [select_eq_prune restricted canonical, prune, if_pos isLeaf]
  bare := fun restricted => by
    rw [select_eq_filter restricted canonical, Node.ofSorted_none]
    exact ⟨rfl, rfl⟩
  children := fun restricted child => by
    rw [select_eq_filter restricted canonical, Node.children_ofSorted,
      List.mem_filter]
  pruned := fun restricted => select_eq_prune restricted canonical

/-- To replace a whole node is to select of the new one, whatever the old one was, and to report
exactly how the selected children differ from the old ones. What has been selected stays when it
is put in place of any node, and is no change in place of itself. -/
theorem replace_selects
    (selection : Selection) {old new : Node}
    (oldCanonical : old.Canonical) (newCanonical : new.Canonical) :
    let filter := selection.filter
    let edit := filter.replace old new
    selection.Selects new edit.node ∧
      edit.Reports old ∧
      (∀ other : Node, (filter.replace other new).node = edit.node) ∧
      (∀ other : Node, (filter.replace other edit.node).node = edit.node) ∧
      filter.replace edit.node edit.node = .unchanged edit.node := by
  have selected := Filter.canonical_select newCanonical selection.filter
  have again : selection.filter.select (selection.filter.select new) =
      selection.filter.select new :=
    select_select newCanonical
  refine ⟨selection.selects_select newCanonical,
    .ofNode oldCanonical selected, fun _ => rfl, fun _ => again, ?_⟩
  change Edit.ofNode (selection.filter.select new)
    (selection.filter.select (selection.filter.select new)) = _
  rw [again]
  exact Edit.ofNode_self selected

/-- Two children hold the greater value, and one the smaller. -/
def twoOfThree : Node :=
  .branch
    [(⟨"a"⟩, .ofScalar (.bool true)), (⟨"b"⟩, .ofScalar (.bool true)),
      (⟨"c"⟩, .ofScalar (.bool false))]
    none

def onlyThird : Node := .branch [(⟨"c"⟩, .ofScalar (.bool true))] none

/-- Selects the last child from the first one with the greater value on. -/
def lastFromTrue : Selection where
  index := .value
  lower? := some ⟨.ofScalar (.bool true), some ⟨"a"⟩⟩
  limit? := some (.last 1)

/-- Of two children that tie the second is selected, in the place of another one. -/
theorem replace_selects_last :
    let edit := lastFromTrue.filter.replace onlyThird twoOfThree
    lastFromTrue.Selects twoOfThree edit.node ∧
      edit.Reports onlyThird ∧
      edit.node.children.map (·.1) = [⟨"b"⟩] ∧
      edit.changes.map (fun change => (change.kind, change.key?)) =
        [(.removed, some ⟨"c"⟩), (.added, some ⟨"b"⟩)] ∧
      lastFromTrue.filter.replace edit.node edit.node =
        .unchanged edit.node := by
  have first :
      (Node.branch [(⟨"a"⟩, .ofScalar (.bool true))] none).Canonical :=
    Node.Canonical.empty.setChild (Node.Canonical.ofScalar (.bool true)) ⟨"a"⟩
  have second :
      (Node.branch [(⟨"a"⟩, .ofScalar (.bool true)),
        (⟨"b"⟩, .ofScalar (.bool true))] none).Canonical :=
    first.setChild (Node.Canonical.ofScalar (.bool true)) ⟨"b"⟩
  have whole : twoOfThree.Canonical :=
    second.setChild (Node.Canonical.ofScalar (.bool false)) ⟨"c"⟩
  have oldCanonical : onlyThird.Canonical :=
    Node.Canonical.empty.setChild (Node.Canonical.ofScalar (.bool true)) ⟨"c"⟩
  obtain ⟨selects, reports, _, _, still⟩ :=
    @replace_selects lastFromTrue onlyThird twoOfThree oldCanonical whole
  have left :
      (lastFromTrue.filter.replace onlyThird twoOfThree).node.children.map
        (·.1) = [⟨"b"⟩] := by
    cbv
  have reported :
      (lastFromTrue.filter.replace onlyThird twoOfThree).changes.map
          (fun change => (change.kind, change.key?)) =
        [(.removed, some ⟨"c"⟩), (.added, some ⟨"b"⟩)] := by
    cbv
  exact ⟨selects, reports, left, reported, still⟩

end Selection

end Replica
