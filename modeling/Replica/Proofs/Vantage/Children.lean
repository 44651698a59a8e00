import Replica.Proofs.Node.Children
import Replica.Proofs.Pending.Below

/-!
# Children over incomplete data

The children that a location shows can be computed all at once or one by one. Where the data of the
server is not known to be complete, a child is known if the server has sent it or a write
determines it, and both computations show the same children.
-/

namespace Replica

open Std

namespace Overlay

variable {overlay : Overlay}

/-- Where a location is determined, so is every location below it. -/
theorem node?_append
    (valid : overlay.Valid) {path : Path} {node : Node}
    (covered : overlay.node? path = some node) (below : Path) :
    overlay.node? (path ++ below) = some (node.descendant below) := by
  rcases covering?_cases valid path with
    ⟨above, rest, existing, rfl, stored, _⟩ | uncovered
  · rw [node?_of_find? valid stored] at covered
    cases covered
    rw [List.append_assoc, node?_of_find? valid stored,
      Node.descendant_append]
  · rw [node?_eq_none_iff.mpr uncovered] at covered
    cases covered

/-! ## Children that writes of their own determine -/

/-- The child that a write puts in place right below the root. -/
def childOf? (write : Path × Node) : Option (Key × Node) :=
  match write.1 with
  | [key] => if key.isPriority then none else some (key, write.2)
  | _ => none

private theorem childOf?_eq_some_iff
    {write : Path × Node} {key : Key} {node : Node} :
    childOf? write = some (key, node) ↔
      write = ([key], node) ∧ key.isPriority = false := by
  obtain ⟨path, written⟩ := write
  unfold childOf?
  match path with
  | [] => simp
  | [only] =>
      cases reserved : only.isPriority with
      | true => grind
      | false => grind
  | _ :: _ :: _ => simp

section

variable (opened : overlay.root? = none)

include opened

private theorem children_eq_filterMap :
    overlay.children = overlay.writes.filterMap childOf? := by
  unfold children
  rw [opened]
  rfl

private theorem mem_children_iff
    (valid : overlay.Valid) {key : Key} {node : Node} :
    (key, node) ∈ overlay.children ↔
      Sorted.find? [key] overlay.writes = some node ∧
        key.isPriority = false := by
  rw [children_eq_filterMap opened, List.mem_filterMap,
    ← Sorted.mem_iff_find? valid.ascending]
  constructor
  · rintro ⟨write, member, isChild⟩
    obtain ⟨rfl, unreserved⟩ := childOf?_eq_some_iff.mp isChild
    exact ⟨member, unreserved⟩
  · rintro ⟨member, unreserved⟩
    exact ⟨_, member, childOf?_eq_some_iff.mpr ⟨rfl, unreserved⟩⟩

private theorem nodup_children (valid : overlay.Valid) :
    (overlay.children.map (·.1)).Nodup := by
  rw [children_eq_filterMap opened, List.Nodup, List.pairwise_map]
  refine valid.ascending.filterMap _ ?_
  rintro earlier later order first isFirst second isSecond same
  rw [(childOf?_eq_some_iff.mp isFirst).1,
    (childOf?_eq_some_iff.mp isSecond).1, same, ReflOrd.compare_self]
    at order
  cases order

/-- A child has a write of its own, or no write determines it. -/
theorem node?_child (valid : overlay.Valid) (key : Key) :
    overlay.node? [key] = Sorted.find? [key] overlay.writes := by
  cases stored : Sorted.find? [key] overlay.writes with
  | some node => exact node?_of_find? valid stored []
  | none =>
      rcases covering?_cases valid [key] with
        ⟨above, below, node, split, found, _⟩ | uncovered
      · rcases List.singleton_eq_append_iff.mp split with
          ⟨rfl, rfl⟩ | ⟨rfl, rfl⟩
        · unfold root? at opened
          rw [opened] at found
          cases found
        · rw [stored] at found
          cases found
      · exact node?_eq_none_iff.mpr uncovered

end

end Overlay

namespace Vantage

variable {vantage : Vantage}

/-- The children that the server has sent, each with what is seen of the writes from there. -/
def sent (vantage : Vantage) (server : Node) : List (Key × Node) :=
  server.children.map fun entry =>
    (entry.1, (vantage.overlay.restrict [entry.1]).apply entry.2)

private theorem children_of_open
    (uncovered : vantage.shadow? [] = none) (server : Node) :
    vantage.children (some server) =
      vantage.overlay.children.foldl
        (fun all entry => all.setChild entry.1 entry.2)
        ((vantage.sent server).foldl
          (fun all entry => all.setChild entry.1 entry.2) .empty) := by
  unfold children sent
  rw [uncovered, List.foldl_map]
  rfl

/-- A location that a write covers shows the children of that write. -/
theorem child?_of_shadow
    (sound : vantage.pending.Sound) {top : Node}
    (covered : vantage.shadow? [] = some top) (key : Key)
    (server : Cache) :
    vantage.child? key server = some (top.child key) := by
  rw [shadow?_nil] at covered
  unfold child?
  dsimp only
  rw [Overlay.node?_append sound.overlay_valid covered [key]]
  rfl

private theorem child_children_of_shadow
    (sound : vantage.pending.Sound) {top : Node}
    (covered : vantage.shadow? [] = some top) (server? : Option Node)
    {key : Key} (unreserved : key.isPriority = false) :
    (vantage.children server?).child key = top.child key := by
  have canonical : top.Canonical := by
    rw [shadow?_nil] at covered
    exact canonical_overlay_node? sound.overlay_valid covered
  unfold children
  rw [covered]
  dsimp only
  split
  · rename_i leaf
    rw [Node.child_leaf leaf unreserved, Node.child_empty]
  · exact Node.child_ofChildren canonical unreserved

section

variable (sound : vantage.pending.Sound) {server : Node}
  (canonical : server.Canonical)

include sound canonical

private theorem canonical_of_mem_sent :
    ∀ entry ∈ vantage.sent server, entry.2.Canonical := by
  intro entry member
  obtain ⟨old, oldMember, rfl⟩ := List.mem_map.mp member
  exact ((sound.overlay_valid.restrict _).restrict _).apply
    (canonical.of_mem_children oldMember)

/-- A child that the server has sent shows with the writes over it. -/
theorem child_foldl_sent
    {key : Key} (unreserved : key.isPriority = false) :
    ((vantage.sent server).foldl
        (fun all entry => all.setChild entry.1 entry.2)
        Node.empty).child key ≈
      if server.hasChild key then
        vantage.pending.laidOver (vantage.path ++ [key]) (server.child key)
      else .empty := by
  have keys : (vantage.sent server).map (·.1) =
      server.children.map (·.1) := List.map_map
  have sentCanonical := canonical_of_mem_sent sound canonical
  split
  · rename_i held
    have member : (key, (vantage.overlay.restrict [key]).apply
        (server.child key)) ∈ vantage.sent server :=
      List.mem_map.mpr ⟨_, Node.mem_children_of_hasChild canonical
        unreserved held, rfl⟩
    have distinct : ((vantage.sent server).map (·.1)).Nodup := by
      rw [keys]
      exact Sorted.nodup_keys canonical.children_ascending
    have shown := Node.child_foldl_setChild_of_mem Node.Canonical.empty
      distinct sentCanonical member unreserved
    unfold Pending.laidOver
    rw [← Overlay.restrict_restrict sound.overlay_valid]
    exact shown
  · rename_i outside
    have absent : key ∉ (vantage.sent server).map (·.1) := by
      rw [keys]
      intro member
      obtain ⟨entry, held, rfl⟩ := List.mem_map.mp member
      exact outside (Node.hasChild_of_mem_children canonical held)
    rw [Node.child_foldl_setChild_of_absent Node.Canonical.empty
      sentCanonical unreserved absent, Node.child_empty]

/-- At an open location, a child shows the write that determines it, or what the server has sent
with the writes below over it. -/
theorem child_children_of_open
    (uncovered : vantage.shadow? [] = none)
    {key : Key} (unreserved : key.isPriority = false) :
    (vantage.children (some server)).child key ≈
      if server.hasChild key ||
          (vantage.pending.overlay.node? (vantage.path ++ [key])).isSome then
        vantage.pending.laidOver (vantage.path ++ [key]) (server.child key)
      else .empty := by
  have valid := sound.overlay_valid
  have seenValid : vantage.overlay.Valid := valid.restrict vantage.path
  have opened : vantage.overlay.root? = none := by
    rw [← uncovered, shadow?_nil]
    exact Overlay.root?_restrict valid vantage.path
  have own : vantage.pending.overlay.node? (vantage.path ++ [key]) =
      Sorted.find? [key] vantage.overlay.writes := by
    rw [← Overlay.node?_child opened seenValid,
      ← Overlay.root?_restrict valid, ← Overlay.root?_restrict seenValid]
    exact congrArg Overlay.root?
      (Overlay.restrict_restrict valid vantage.path [key]).symm
  have sentCanonical := Node.Canonical.empty.foldl_setChild
    (canonical_of_mem_sent sound canonical)
  have isWrite {entry : Key × Node}
      (member : entry ∈ vantage.overlay.children) :
      Sorted.find? [entry.1] vantage.overlay.writes = some entry.2 :=
    ((Overlay.mem_children_iff opened seenValid).mp member).1
  have writtenCanonical :
      ∀ entry ∈ vantage.overlay.children, entry.2.Canonical :=
    fun entry member => seenValid.canonical _
      (Sorted.mem_of_find?_eq_some (isWrite member))
  rw [children_of_open uncovered]
  cases written : Sorted.find? [key] vantage.overlay.writes with
  | some child =>
      rw [written] at own
      rw [Pending.laidOver_of_node? sound own, own, Option.isSome_some,
        Bool.or_true, if_pos rfl]
      exact Node.child_foldl_setChild_of_mem sentCanonical
        (Overlay.nodup_children opened seenValid) writtenCanonical
        ((Overlay.mem_children_iff opened seenValid).mpr
          ⟨written, unreserved⟩) unreserved
  | none =>
      have absent : key ∉ vantage.overlay.children.map (·.1) := by
        intro member
        obtain ⟨entry, determined, rfl⟩ := List.mem_map.mp member
        rw [isWrite determined] at written
        cases written
      rw [Node.child_foldl_setChild_of_absent sentCanonical
        writtenCanonical unreserved absent, own, written,
        Option.isSome_none, Bool.or_false]
      exact child_foldl_sent sound canonical unreserved

/-- Among the children computed at once stands the one that is computed alone. -/
theorem child_children
    (filtered : Bool) {key : Key} (unreserved : key.isPriority = false) :
    (vantage.children (some server)).child key ≈
      (vantage.child? key ⟨server, false, filtered⟩).getD .empty := by
  cases covered : vantage.shadow? [] with
  | some top =>
      rw [child?_of_shadow sound covered,
        child_children_of_shadow sound covered _ unreserved]
      exact Setoid.refl _
  | none =>
      have knows : Cache.knowsChild ⟨server, false, filtered⟩ key =
          server.hasChild key := rfl
      have shown :=
        child_children_of_open sound canonical covered unreserved
      rw [child?_eq sound, knows]
      split
      · rename_i known
        rw [if_pos known] at shown
        exact shown
      · rename_i unknown
        rw [if_neg unknown] at shown
        exact shown

end

/-- Whatever calls have been made on the pending writes, over incomplete data of the server the
children computed at once and each child computed alone are the same, known or not. -/
theorem children_agree
    (limit? : Option Nat) {acts : List Pending.Act}
    (valid : ∀ act ∈ acts, act.Valid) (path : Path)
    {server : Node} (canonical : server.Canonical) (filtered : Bool)
    {key : Key} (unreserved : key.isPriority = false) :
    let vantage := (({ limit? := limit? } : Pending).attempts acts).at path
    ((vantage.children (some server)).child key).same
      ((vantage.child? key ⟨server, false, filtered⟩).getD .empty) =
        true :=
  child_children ((Pending.queued_empty limit?).attempts valid).sound
    canonical filtered unreserved

/-- Writes below a child that the server has sent and below one that it has not sent, and a
deletion; a hidden write is taken back. -/
def besideAndBelow : List Pending.Act :=
  [.overwrite 1 [⟨"v"⟩, ⟨"a"⟩, ⟨"x"⟩] (.ofScalar (.bool true)) true,
    .overwrite 2 [⟨"v"⟩, ⟨"b"⟩] .empty true,
    .overwrite 3 [⟨"v"⟩] .empty false,
    .overwrite 4 [⟨"v"⟩, ⟨"c"⟩, ⟨"y"⟩] (.ofScalar (.bool true)) true,
    .remove 3]

theorem children_agree_beside_and_below :
    let vantage :=
      (({ limit? := some 4 } : Pending).attempts besideAndBelow).at [⟨"v"⟩]
    let server := Node.branch
      [(⟨"a"⟩, .leaf (.bool false) (some (.text "q"))),
        (⟨"b"⟩, .ofScalar (.bool true))] none
    ((vantage.children (some server)).child ⟨"a"⟩).same
        (.branch [(⟨"x"⟩, .ofScalar (.bool true))] (some (.text "q"))) =
          true ∧
      (vantage.child? ⟨"c"⟩ ⟨server, false, true⟩).isNone = true ∧
      ((vantage.children (some server)).child ⟨"a"⟩).same
          ((vantage.child? ⟨"a"⟩ ⟨server, false, true⟩).getD .empty) =
            true ∧
        ((vantage.children (some server)).child ⟨"c"⟩).same
          ((vantage.child? ⟨"c"⟩ ⟨server, false, true⟩).getD .empty) =
            true := by
  intro vantage server
  have valid : ∀ act ∈ besideAndBelow, act.Valid := by
    simp [besideAndBelow, Pending.Act.Valid, Node.Canonical.ofScalar,
      Node.Canonical.empty]
  have canonical : server.Canonical :=
    (Node.Canonical.empty.setDescendant
      (Node.Canonical.leaf (.bool false) (some (.text "q")))
      [⟨"a"⟩]).setDescendant (Node.Canonical.ofScalar (.bool true)) [⟨"b"⟩]
  exact ⟨by decide, by decide,
    children_agree (some 4) valid _ canonical true rfl,
    children_agree (some 4) valid _ canonical true rfl⟩

end Vantage

end Replica
