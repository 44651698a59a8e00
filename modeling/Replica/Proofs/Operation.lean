import Replica.Operation
import Replica.View.Update
import Replica.Proofs.Pending

/-!
# Operations as writes

An operation puts single nodes in place. Seen from a location, it puts in place what is seen of
them there, whatever way it takes to that location.
-/

namespace Replica

namespace Overlay

private theorem seenFrom_append_append
    (base lower path : Path) (node : Node) :
    seenFrom (base ++ lower) (base ++ path, node) =
      seenFrom lower (path, node) := by
  rw [seenFrom_append, seenFrom_below]
  rfl

@[simp]
private theorem filterMap_writesBelow_below
    (base path : Path) (nodes : Overlay) :
    (nodes.writesBelow (base ++ path)).filterMap (seenFrom base) =
      nodes.writesBelow path := by
  unfold writesBelow
  rw [List.filterMap_map, ← List.filterMap_eq_map]
  refine List.filterMap_congr fun write _ => ?_
  change seenFrom base (base ++ path ++ write.1, write.2) = _
  rw [List.append_assoc, seenFrom_below]
  rfl

@[simp]
private theorem filterMap_writesBelow_above
    {nodes : Overlay} (valid : nodes.Valid) (path below : Path) :
    (nodes.writesBelow path).filterMap (seenFrom (path ++ below)) =
      (nodes.restrict below).writes := by
  rw [writes_restrict valid]
  unfold writesBelow
  rw [List.filterMap_map]
  refine List.filterMap_congr fun write _ => ?_
  exact seenFrom_append_append path below write.1 write.2

private theorem seenFrom_outside
    {base path : Path}
    (notAbove : Path.contains path base = false)
    (notBelow : Path.contains base path = false)
    (below : Path) (node : Node) :
    seenFrom base (path ++ below, node) = none := by
  refine seenFrom_beside node ?_ ?_
  · rw [Bool.eq_false_iff]
    intro contained
    rw [Path.contains_trans (Path.contains_append path below) contained]
      at notAbove
    cases notAbove
  · rw [Bool.eq_false_iff]
    intro contained
    rcases Path.contains_or_contains contained
        (Path.contains_append path below) with first | second
    · rw [notBelow] at first
      cases first
    · rw [notAbove] at second
      cases second

private theorem filterMap_writesBelow_outside
    {base path : Path}
    (notAbove : Path.contains path base = false)
    (notBelow : Path.contains base path = false)
    (nodes : Overlay) :
    (nodes.writesBelow path).filterMap (seenFrom base) = [] := by
  refine List.filterMap_eq_nil_iff.mpr fun write member => ?_
  obtain ⟨below, _, rfl⟩ := List.mem_map.mp member
  exact seenFrom_outside notAbove notBelow below.1 below.2

end Overlay

namespace Operation

/-- The nodes that an operation brings are canonical and its overlays valid. -/
def Valid : Operation → Prop
  | .overwrite _ _ node => node.Canonical
  | .merge _ _ nodes => nodes.Valid
  | .acknowledge _ _ nodes => nodes.Valid
  | .listenComplete _ => True

/-- The nodes that an operation brings, at the root of an overlay or at its own places. -/
def nodes : Operation → Overlay
  | .overwrite _ _ node => .ofNode node
  | .merge _ _ nodes => nodes
  | .acknowledge _ _ nodes => nodes
  | .listenComplete _ => .empty

/-- The single nodes that an operation puts in place. -/
def writes (operation : Operation) : List (Path × Node) :=
  operation.nodes.writesBelow operation.path

/-- Whether the nodes of an operation become data of the server. -/
def tellsServer : Operation → Bool
  | .overwrite source _ _ => source == .server
  | .merge source _ _ => source == .server
  | .acknowledge _ rejected _ => !rejected
  | .listenComplete _ => false

def completes : Operation → Bool
  | .listenComplete _ => true
  | _ => false

/-- The single nodes that an operation puts in place in the data of the server. -/
def serverWrites (operation : Operation) : List (Path × Node) :=
  if operation.tellsServer then operation.writes else []

private theorem Valid.nodes
    {operation : Operation} (valid : operation.Valid) :
    operation.nodes.Valid := by
  cases operation with
  | overwrite _ _ node => exact Overlay.Valid.ofNode valid
  | merge _ _ _ => exact valid
  | acknowledge _ _ _ => exact valid
  | listenComplete _ => exact Overlay.Valid.empty

theorem Valid.canonical_of_mem_writes
    {operation : Operation} (valid : operation.Valid) :
    ∀ write ∈ operation.writes, write.2.Canonical :=
  valid.nodes.canonical_of_mem_writesBelow operation.path

/-- No two nodes that an operation puts in place lie above one another. -/
theorem Valid.apart_of_mem_writes
    {operation : Operation} (valid : operation.Valid) :
    ∀ upper ∈ operation.writes, ∀ lower ∈ operation.writes,
      Path.contains upper.1 lower.1 = true → upper = lower :=
  valid.nodes.apart_of_mem_writesBelow operation.path

theorem mem_writes_of_mem_serverWrites
    {operation : Operation} {write : Path × Node}
    (member : write ∈ operation.serverWrites) :
    write ∈ operation.writes := by
  unfold serverWrites at member
  split at member
  · exact member
  · cases member

theorem Valid.canonical_of_mem_serverWrites
    {operation : Operation} (valid : operation.Valid) :
    ∀ write ∈ operation.serverWrites, write.2.Canonical := by
  intro write member
  exact valid.canonical_of_mem_writes write
    (mem_writes_of_mem_serverWrites member)

@[simp]
theorem path_withPath (operation : Operation) (path : Path) :
    (operation.withPath path).path = path := by
  cases operation <;> rfl

@[simp]
theorem nodes_withPath (operation : Operation) (path : Path) :
    (operation.withPath path).nodes = operation.nodes := by
  cases operation <;> rfl

@[simp]
theorem tellsServer_withPath (operation : Operation) (path : Path) :
    (operation.withPath path).tellsServer = operation.tellsServer := by
  cases operation <;> rfl

@[simp]
theorem completes_withPath (operation : Operation) (path : Path) :
    (operation.withPath path).completes = operation.completes := by
  cases operation <;> rfl

private theorem Valid.withPath
    {operation : Operation} (valid : operation.Valid) (path : Path) :
    (operation.withPath path).Valid := by
  cases operation <;> exact valid

/-! ## Operations as seen from a location -/

/-- An operation as it is seen from a location: what it writes there is what is seen of the
writes of the original. -/
structure Shows (operation shown : Operation) (base : Path) : Prop where
  valid : shown.Valid
  writes :
    shown.writes =
      operation.writes.filterMap (Overlay.seenFrom base)
  tellsServer : shown.tellsServer = operation.tellsServer
  completes : shown.completes = operation.completes

theorem Shows.serverWrites
    {operation shown : Operation} {base : Path}
    (shows : Shows operation shown base) :
    shown.serverWrites =
      operation.serverWrites.filterMap (Overlay.seenFrom base) := by
  unfold Operation.serverWrites
  rw [shows.tellsServer, shows.writes]
  split
  · rfl
  · rfl

private theorem writes_of_root
    {operation : Operation} (root : operation.path = []) :
    operation.writes = operation.nodes.writes := by
  unfold writes Overlay.writesBelow
  rw [root]
  simp

private theorem descend?_shows
    {operation : Operation} (valid : operation.Valid)
    (root : operation.path = []) (key : Key) :
    match operation.descend? key with
    | some shown =>
        shown.path = [] ∧ Shows operation shown [key]
    | none =>
        operation.writes.filterMap (Overlay.seenFrom [key]) = [] := by
  have below :
      operation.writes.filterMap (Overlay.seenFrom [key]) =
        (operation.nodes.restrict [key]).writes := by
    rw [writes_of_root root, Overlay.writes_restrict valid.nodes]
  cases operation with
  | overwrite source path node =>
      have canonical : node.Canonical := valid
      refine ⟨rfl, canonical.child key, ?_, rfl, rfl⟩
      rw [below]
      exact (Overlay.writes_restrict_of_covered
        (Overlay.Valid.ofNode canonical)
        (Sorted.find?_cons_self [] node []) [key]).symm
  | merge source path nodes =>
      have restricted := Overlay.Valid.restrict valid [key]
      unfold descend?
      dsimp only
      by_cases nothing : (nodes.restrict [key]).isEmpty = true
      · rw [if_pos nothing]
        dsimp only
        rw [below]
        exact List.isEmpty_iff.mp nothing
      · rw [if_neg nothing]
        cases stored : (nodes.restrict [key]).root? with
        | some node =>
            have alone := Overlay.writes_of_root? restricted stored
            refine ⟨rfl, ?_, ?_, rfl, rfl⟩
            · exact restricted.canonical ([], node) (by
                rw [alone]
                exact List.mem_singleton_self _)
            · rw [below]
              exact alone.symm
        | none =>
            refine ⟨rfl, restricted, ?_, rfl, rfl⟩
            rw [below]
            exact writes_of_root rfl
  | acknowledge path rejected nodes =>
      have restricted := Overlay.Valid.restrict valid [key]
      unfold descend?
      dsimp only
      by_cases nothing : (nodes.restrict [key]).isEmpty = true
      · rw [if_pos nothing]
        dsimp only
        rw [below]
        exact List.isEmpty_iff.mp nothing
      · rw [if_neg nothing]
        refine ⟨rfl, restricted, ?_, rfl, rfl⟩
        rw [below]
        exact writes_of_root rfl
  | listenComplete path => exact ⟨rfl, trivial, rfl, rfl, rfl⟩

private theorem foldlM_forChild?_shows
    {operation : Operation} (valid : operation.Valid)
    (root : operation.path = []) (base : Path) :
    match base.foldlM forChild? operation with
    | some shown => Shows operation shown base
    | none =>
        operation.writes.filterMap (Overlay.seenFrom base) = [] := by
  induction base generalizing operation with
  | nil =>
      have everything :
          Overlay.seenFrom [] = fun write : Path × Node => some write :=
        funext Overlay.seenFrom_root
      refine ⟨valid, ?_, rfl, rfl⟩
      rw [everything, List.filterMap_some]
  | cons key rest inductionHypothesis =>
      have composed :=
        Overlay.filterMap_seenFrom_append [key] rest operation.writes
      rw [List.singleton_append] at composed
      have first : operation.forChild? key = operation.descend? key := by
        unfold forChild?
        rw [root]
      have shown := descend?_shows valid root key
      rw [List.foldlM_cons, first]
      cases descended : operation.descend? key with
      | none =>
          rw [descended] at shown
          change operation.writes.filterMap _ = []
          rw [composed, shown]
          rfl
      | some middle =>
          rw [descended] at shown
          obtain ⟨middleRoot, middleShows⟩ := shown
          have further := inductionHypothesis middleShows.valid middleRoot
          rw [Option.bind_eq_bind, Option.bind_some]
          cases followed : rest.foldlM forChild? middle with
          | none =>
              rw [followed, middleShows.writes] at further
              change operation.writes.filterMap _ = []
              rw [composed, further]
          | some last =>
              rw [followed] at further
              refine ⟨further.valid, ?_,
                further.tellsServer.trans middleShows.tellsServer,
                further.completes.trans middleShows.completes⟩
              rw [further.writes, middleShows.writes, composed]

private theorem relativeTo?_shows
    {operation : Operation} (valid : operation.Valid) (base : Path) :
    match operation.relativeTo? base with
    | some shown => Shows operation shown base
    | none =>
        operation.writes.filterMap (Overlay.seenFrom base) = [] := by
  unfold relativeTo?
  rcases Path.related_cases operation.path base with
    ⟨below, lower⟩ | ⟨below, upper⟩ | ⟨notAbove, notBelow⟩
  · have split := Path.below?_eq_some_iff.mpr lower
    rw [split]
    refine ⟨valid.withPath below, ?_, tellsServer_withPath _ _,
      completes_withPath _ _⟩
    unfold writes
    rw [path_withPath, nodes_withPath, lower,
      Overlay.filterMap_writesBelow_below]
  · by_cases here : below = []
    · rw [here, List.append_nil] at upper
      subst upper
      rw [Path.below?_self]
      refine ⟨valid.withPath [], ?_, tellsServer_withPath _ _,
        completes_withPath _ _⟩
      have shown :=
        Overlay.filterMap_writesBelow_below operation.path []
          operation.nodes
      rw [List.append_nil] at shown
      unfold writes
      rw [path_withPath, nodes_withPath, shown]
    · have notBelow : Path.below? operation.path base = none := by
        rw [Path.below?_eq_none_iff, Bool.eq_false_iff, upper]
        intro contained
        have equality :=
          Path.contains_antisymm
            (Path.contains_append operation.path below) contained
        exact here (List.self_eq_append_right.mp equality)
      rw [notBelow, Path.below?_eq_some_iff.mpr upper]
      have atRoot := valid.withPath []
      have shown :=
        foldlM_forChild?_shows atRoot (path_withPath operation []) below
      have sameWrites :
          (operation.withPath []).writes.filterMap
              (Overlay.seenFrom below) =
            operation.writes.filterMap (Overlay.seenFrom base) := by
        rw [writes_of_root (path_withPath operation []), nodes_withPath]
        unfold writes
        rw [upper, Overlay.filterMap_writesBelow_above valid.nodes,
          Overlay.writes_restrict valid.nodes]
      dsimp only
      cases followed : below.foldlM forChild? (operation.withPath []) with
      | none =>
          rw [followed, sameWrites] at shown
          exact shown
      | some last =>
          rw [followed] at shown
          refine ⟨shown.valid, ?_,
            shown.tellsServer.trans (tellsServer_withPath _ _),
            shown.completes.trans (completes_withPath _ _)⟩
          rw [shown.writes, sameWrites]
  · rw [Path.below?_eq_none_iff.mpr notBelow,
      Path.below?_eq_none_iff.mpr notAbove]
    exact Overlay.filterMap_writesBelow_outside notAbove notBelow
      operation.nodes

/-- What reaches a location is what is seen from there. -/
theorem shows_of_relativeTo?
    {operation shown : Operation} (valid : operation.Valid)
    {base : Path} (reaches : operation.relativeTo? base = some shown) :
    Shows operation shown base := by
  have shows := relativeTo?_shows valid base
  rw [reaches] at shows
  exact shows

/-- Nothing is seen of an operation from a location that it does not reach. -/
theorem unseen_of_relativeTo?
    {operation : Operation} (valid : operation.Valid)
    {base : Path} (misses : operation.relativeTo? base = none) :
    operation.writes.filterMap (Overlay.seenFrom base) = [] := by
  have shows := relativeTo?_shows valid base
  rw [misses] at shows
  exact shows

theorem relativeTo?_of_outside
    {operation : Operation} {base : Path}
    (notAbove : Path.contains operation.path base = false)
    (notBelow : Path.contains base operation.path = false) :
    operation.relativeTo? base = none := by
  unfold relativeTo?
  rw [Path.below?_eq_none_iff.mpr notBelow,
    Path.below?_eq_none_iff.mpr notAbove]

section

variable (holds : Operation → Prop)
  (moves : ∀ (operation : Operation) (path : Path),
    (∃ above, operation.path = above ++ path) → holds operation →
      holds (operation.withPath path))
  (descends : ∀ (operation : Operation) (key : Key) (shown : Operation),
    operation.descend? key = some shown → holds operation → holds shown)

include moves descends

private theorem holds_of_foldlM
    {base : Path} {operation shown : Operation}
    (passes : base.foldlM forChild? operation = some shown)
    (start : holds operation) : holds shown := by
  induction base generalizing operation with
  | nil =>
      cases passes
      exact start
  | cons key rest inductionHypothesis =>
      rw [List.foldlM_cons] at passes
      obtain ⟨middle, first, later⟩ := Option.bind_eq_some_iff.mp passes
      refine inductionHypothesis later ?_
      unfold forChild? at first
      split at first
      · exact descends operation key middle first start
      · rename_i target below isPath
        split at first
        · cases first
          exact moves operation below ⟨[target], isPath⟩ start
        · cases first

/-- What is kept when an operation moves to a location below the receiver or is seen from a
child, is kept wherever the operation is seen from. -/
theorem holds_of_relativeTo?
    {base : Path} {operation shown : Operation}
    (reaches : operation.relativeTo? base = some shown)
    (start : holds operation) : holds shown := by
  unfold relativeTo? at reaches
  split at reaches
  · rename_i below isBelow
    cases reaches
    exact moves operation below ⟨base, Path.below?_eq_some_iff.mp isBelow⟩
      start
  · split at reaches
    · have atRoot : holds (operation.withPath []) :=
        moves operation [] ⟨operation.path, (List.append_nil _).symm⟩ start
      exact holds_of_foldlM holds moves descends reaches atRoot
    · cases reaches

end

/-- The acceptance of a write is seen as one. -/
theorem acknowledge_of_relativeTo?
    {path : Path} {rejected : Bool} {nodes : Overlay}
    (unreserved : path.Unreserved) {base : Path} {shown : Operation}
    (reaches : (Operation.acknowledge path rejected nodes).relativeTo?
      base = some shown) :
    ∃ below others, shown = .acknowledge below rejected others ∧
      below.Unreserved := by
  refine holds_of_relativeTo?
    (fun seen => ∃ below others, seen = .acknowledge below rejected others ∧
      below.Unreserved) ?_ ?_ reaches ⟨path, nodes, rfl, unreserved⟩
  · rintro _ below ⟨above, split⟩ ⟨whole, others, rfl, plain⟩
    have lower : whole = above ++ below := split
    rw [lower] at plain
    exact ⟨below, others, rfl, (Path.unreserved_append_iff.mp plain).2⟩
  · rintro _ key middle descended ⟨whole, others, rfl, _⟩
    unfold descend? at descended
    dsimp only at descended
    split at descended
    · cases descended
    · cases descended
      exact ⟨[], _, rfl, fun _ member => absurd member List.not_mem_nil⟩

/-- New data is seen as new data. -/
theorem overwrite_of_relativeTo?
    {source : Source} {path : Path} {node : Node}
    (writable : path.Writable) {base : Path} {shown : Operation}
    (reaches : (Operation.overwrite source path node).relativeTo? base =
      some shown) :
    ∃ below data, shown = .overwrite source below data ∧
      below.Writable := by
  refine holds_of_relativeTo?
    (fun seen => ∃ below data, seen = .overwrite source below data ∧
      below.Writable) ?_ ?_ reaches ⟨path, node, rfl, writable⟩
  · rintro _ below ⟨above, split⟩ ⟨whole, data, rfl, fit⟩
    have lower : whole = above ++ below := split
    rw [lower] at fit
    exact ⟨below, data, rfl, fit.lower⟩
  · rintro _ key middle descended ⟨whole, data, rfl, _⟩
    cases descended
    exact ⟨[], _, rfl, nofun⟩

end Operation

/-! ## What an operation touches -/

namespace Scope

private theorem mem_insertKey {key other : Key} {keys : List Key} :
    other ∈ insertKey key keys ↔ other = key ∨ other ∈ keys := by
  induction keys with
  | nil => simp [insertKey]
  | cons first rest inductionHypothesis =>
      unfold insertKey
      split
      · rw [List.mem_cons]
      · rename_i equal
        rw [Std.LawfulEqOrd.eq_of_compare equal, List.mem_cons,
          or_self_left]
      · rw [List.mem_cons, inductionHypothesis, List.mem_cons]
        exact or_left_comm

private theorem mem_foldr_insertKey {other : Key} {keys others : List Key} :
    other ∈ keys.foldr insertKey others ↔
      other ∈ keys ∨ other ∈ others := by
  induction keys with
  | nil => simp
  | cons first rest inductionHypothesis =>
      rw [List.foldr_cons, mem_insertKey, inductionHypothesis,
        List.mem_cons, or_assoc]

/-- The keys are keys for data, and the writes lie below the children under them. -/
def Covers (keys : List Key) (writes : List (Path × Node)) : Prop :=
  (∀ key ∈ keys, key.isPriority = false) ∧
    ∀ write ∈ writes, ∃ key ∈ keys, ∃ rest, write.1 = key :: rest

theorem covers_of_ofPath
    {path : Path} {keys : List Key} (scope : ofPath path = .children keys) :
    (∀ key ∈ keys, key.isPriority = false) ∧
      ∃ key ∈ keys, ∃ rest, path = key :: rest := by
  cases path with
  | nil => cases scope
  | cons key rest =>
      change (if key.isPriority then all else children [key]) =
        children keys at scope
      by_cases reserved : key.isPriority = true
      · rw [if_pos reserved] at scope
        cases scope
      · rw [if_neg reserved] at scope
        cases scope
        refine ⟨?_, key, List.mem_singleton_self key, rest, rfl⟩
        intro other member
        rw [List.mem_singleton.mp member]
        simpa using reserved

private theorem covers_of_ofWrites
    {writes : List (Path × Node)} {keys : List Key}
    (scope : ofWrites writes = .children keys) : Covers keys writes := by
  induction writes generalizing keys with
  | nil =>
      cases scope
      exact ⟨fun _ member => absurd member List.not_mem_nil,
        fun _ member => absurd member List.not_mem_nil⟩
  | cons write rest inductionHypothesis =>
      unfold ofWrites at scope
      cases first : ofPath write.1 with
      | all =>
          rw [first] at scope
          cases scope
      | children firstKeys =>
          cases others : ofWrites rest with
          | all =>
              rw [first, others] at scope
              cases scope
          | children otherKeys =>
              rw [first, others] at scope
              cases scope
              obtain ⟨firstUnreserved, key, member, below, path⟩ :=
                covers_of_ofPath first
              obtain ⟨othersUnreserved, otherWrites⟩ :=
                inductionHypothesis others
              constructor
              · intro other otherMember
                rcases mem_foldr_insertKey.mp otherMember with
                  here | there
                · exact firstUnreserved other here
                · exact othersUnreserved other there
              · intro other otherMember
                rcases List.mem_cons.mp otherMember with rfl | inRest
                · exact ⟨key, mem_foldr_insertKey.mpr (Or.inl member),
                    below, path⟩
                · obtain ⟨otherKey, otherKeyMember, split⟩ :=
                    otherWrites other inRest
                  exact ⟨otherKey,
                    mem_foldr_insertKey.mpr (Or.inr otherKeyMember),
                    split⟩

private theorem covers_of_ofMerge
    {path : Path} {nodes : Overlay} {keys : List Key}
    (scope : ofMerge path nodes = .children keys) :
    Covers keys (nodes.writesBelow path) := by
  cases path with
  | nil =>
      obtain ⟨unreserved, placed⟩ := covers_of_ofWrites scope
      refine ⟨unreserved, fun write member => ?_⟩
      obtain ⟨below, belowMember, rfl⟩ := List.mem_map.mp member
      exact placed below belowMember
  | cons first rest =>
      change ofPath (first :: rest) = children keys at scope
      obtain ⟨unreserved, key, member, others, path⟩ :=
        covers_of_ofPath scope
      refine ⟨unreserved, fun write writeMember => ?_⟩
      obtain ⟨below, _, rfl⟩ := List.mem_map.mp writeMember
      refine ⟨key, member, others ++ below.1, ?_⟩
      rw [path]
      rfl

end Scope

/-- An operation that touches only children writes only below them. -/
theorem Operation.covers_of_scope
    {operation : Operation} {keys : List Key}
    (scope : operation.scope = .children keys) :
    Scope.Covers keys operation.writes := by
  cases operation with
  | overwrite source path node =>
      obtain ⟨unreserved, placed⟩ := Scope.covers_of_ofPath scope
      refine ⟨unreserved, fun write member => ?_⟩
      have alone := Overlay.writesBelow_ofNode path node
      change write ∈ (Overlay.ofNode node).writesBelow path at member
      rw [alone, List.mem_singleton] at member
      rw [member]
      exact placed
  | merge source path nodes => exact Scope.covers_of_ofMerge scope
  | acknowledge path rejected nodes => exact Scope.covers_of_ofMerge scope
  | listenComplete path =>
      exact ⟨(Scope.covers_of_ofPath scope).1,
        fun _ member => absurd member List.not_mem_nil⟩

theorem Operation.covers_serverWrites
    {operation : Operation} {keys : List Key}
    (scope : operation.scope = .children keys) :
    Scope.Covers keys operation.serverWrites :=
  ⟨(covers_of_scope scope).1, fun write member =>
    (covers_of_scope scope).2 write (mem_writes_of_mem_serverWrites member)⟩

private theorem Scope.exists_of_ofWrites
    {writes : List (Path × Node)} (scope : ofWrites writes = .all) :
    ∃ write ∈ writes, ofPath write.1 = .all := by
  induction writes with
  | nil => cases scope
  | cons write rest inductionHypothesis =>
      unfold ofWrites at scope
      cases first : ofPath write.1 with
      | all => exact ⟨write, List.mem_cons_self, first⟩
      | children keys =>
          cases others : ofWrites rest with
          | all =>
              obtain ⟨later, member, isAll⟩ := inductionHypothesis others
              exact ⟨later, List.mem_cons_of_mem write member, isAll⟩
          | children otherKeys =>
              rw [first, others] at scope
              cases scope

private theorem Scope.eq_nil_of_ofPath
    {path : Path} (unreserved : path.Unreserved)
    (scope : ofPath path = .all) : path = [] := by
  cases path with
  | nil => rfl
  | cons key rest =>
      change (if key.isPriority then all else children [key]) = all
        at scope
      rw [unreserved.head, if_neg Bool.false_ne_true] at scope
      cases scope

/-- Where the acceptance of a write touches everything, the write lies at or above the
location. -/
theorem Operation.root_of_scope_all
    {path : Path} {rejected : Bool} {nodes : Overlay}
    (pathUnreserved : path.Unreserved)
    (unreserved : ∀ write ∈ nodes.writesBelow path, write.1.Unreserved)
    (scope : (Operation.acknowledge path rejected nodes).scope = .all) :
    ∃ write ∈ nodes.writesBelow path, write.1 = [] := by
  cases path with
  | nil =>
      obtain ⟨write, member, isAll⟩ := Scope.exists_of_ofWrites scope
      have below : write ∈ nodes.writesBelow [] :=
        List.mem_map.mpr ⟨write, member, rfl⟩
      exact ⟨write, below, Scope.eq_nil_of_ofPath (unreserved write below)
        isAll⟩
  | cons key rest =>
      have isAll : Scope.ofPath (key :: rest) = .all := scope
      cases Scope.eq_nil_of_ofPath pathUnreserved isAll

/-- Nothing is seen from the children that an operation does not touch. -/
theorem Scope.Covers.unseen
    {keys : List Key} {writes : List (Path × Node)}
    (covers : Covers keys writes)
    {key : Key} (untouched : key ∉ keys) :
    writes.filterMap (Overlay.seenFrom [key]) = [] := by
  refine List.filterMap_eq_nil_iff.mpr fun write member => ?_
  obtain ⟨other, otherMember, rest, path⟩ := covers.2 write member
  have differs : other ≠ key := by
    rintro rfl
    exact untouched otherMember
  have split : write = (other :: rest, write.2) := Prod.ext path rfl
  rw [split]
  exact Overlay.seenFrom_beside write.2
    (Path.contains_of_heads_ne differs rest [])
    (Path.contains_of_heads_ne differs.symm [] rest)

end Replica
