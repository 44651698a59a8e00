import Replica.Filter
import Replica.Operation
import Replica.Pending

/-!
# Updating the caches of a view

An operation first changes the server's data, and then the touched part of the visible data is
computed anew from the server's data and the pending writes. The net changes of the children are
collected on the way, and the value change comes last.
-/

namespace Replica

/-- The part of the visible data that an operation may have touched. -/
inductive Scope where
  /-- Everything, the priority of the location included. -/
  | all
  /-- These children, in key order. -/
  | children (keys : List Key)

namespace Scope

def ofPath : Path → Scope
  | [] => .all
  | key :: _ => if key.isPriority then .all else .children [key]

/-- Puts a key at its place among sorted keys, once. -/
def insertKey (key : Key) : List Key → List Key
  | [] => [key]
  | other :: rest =>
    match compare key other with
    | .lt => key :: other :: rest
    | .eq => other :: rest
    | .gt => other :: insertKey key rest

/-- What writes at the receiver touch: everything as soon as one of them concerns the receiver
itself. -/
def ofWrites : List (Path × Node) → Scope
  | [] => .children []
  | (path, _) :: rest =>
    match ofPath path, ofWrites rest with
    | .children keys, .children others => .children (keys.foldr insertKey others)
    | _, _ => .all

/-- What nodes written below a location touch. -/
def ofMerge (path : Path) (nodes : Overlay) : Scope :=
  match path with
  | [] => ofWrites nodes.writes
  | _ :: _ => ofPath path

end Scope

structure Update where
  caches : Caches
  changes : List Change

/-- The visible snapshot under computation and the net changes that led to it. -/
structure Progress where
  node : Node
  ledger : Ledger := []

/-- Makes an edit and enters its changes. -/
def Progress.take (progress : Progress) (edit : Edit) : Except SyncError Progress := do
  let ledger ← progress.ledger.recordAll edit.changes
  return ⟨edit.node, ledger⟩

namespace Caches

/-- The server's cache after its data at a location was replaced. Data below an unknown child is
of no use and is left out. -/
def overwriteServer (filter : Filter) (caches : Caches) (path : Path) (node : Node) : Caches :=
  let server := caches.server
  let put (replacement : Node) : Caches :=
    { caches with
      server := ⟨replacement, server.complete || path.isEmpty, filter.drops⟩ }
  match path with
  | [] => put (filter.replace server.node node).node
  | key :: rest =>
    if filter.drops && !server.filtered then
      put (filter.replace server.node (server.node.setDescendant path node)).node
    else if !server.knowsPath path && !rest.isEmpty then caches
    else
      let child := (server.node.child key).setDescendant rest node
      if key.isPriority then
        put (filter.setPriority server.node (child.value?.bind Priority.ofScalar?))
      else put (filter.setChild server.node key child .empty).node

/-- The caches after nodes below a location were replaced in the server's data. -/
def mergeServer (filter : Filter) (caches : Caches) (path : Path) (nodes : Overlay) : Caches :=
  nodes.writes.foldl
    (fun all (below, node) => overwriteServer filter all (path ++ below) node) caches

/-- The caches after an operation changed the server's data. -/
def receive (filter : Filter) (caches : Caches) : Operation → Caches
  | .overwrite .server path node => overwriteServer filter caches path node
  | .overwrite .user _ _ => caches
  | .merge .server path nodes => mergeServer filter caches path nodes
  | .merge .user _ _ => caches
  | .acknowledge path rejected nodes =>
    if rejected then caches else mergeServer filter caches path nodes
  | .listenComplete path =>
    { caches with
      server := { caches.server with complete := caches.server.complete || path.isEmpty } }

/-- The visible data at the location of a view: a write that determines the location, or the
writes over the server's data as far as that is known. -/
def visibleNode (server : Cache) (vantage : Vantage) : Node :=
  match vantage.shadow? [], server.complete? with
  | some written, _ => written
  | none, some node => (vantage.node? (some node)).getD .empty
  | none, none => vantage.children (some server.node)

def refreshChild (filter : Filter) (server : Cache) (vantage : Vantage) (known : Node)
    (progress : Progress) (key : Key) : Except SyncError Progress :=
  match vantage.child? key server with
  | some child => progress.take (filter.setChild progress.node key child known)
  | none =>
    if progress.node.hasChild key then
      progress.take (filter.setChild progress.node key .empty known)
    else .ok progress

/-- Shows a leaf where the children have gone and the data at the location is a leaf. -/
def refreshLeaf (filter : Filter) (server : Cache) (vantage : Vantage) (progress : Progress) :
    Except SyncError Progress :=
  if progress.node.isEmpty then
    match server.complete? with
    | some node =>
      let whole := (vantage.node? (some node)).getD .empty
      if whole.isLeaf then progress.take (filter.replace progress.node whole) else .ok progress
    | none => .ok progress
  else .ok progress

/-- Computes the touched part of the visible data anew. The ancestor's data, if known, tells
which children may slide into a window. -/
def refresh (filter : Filter) (caches : Caches) (scope : Scope) (vantage : Vantage)
    (ancestor? : Option Node) : Except SyncError (Caches × Ledger) := do
  let server := caches.server
  let start : Progress := ⟨caches.visible.node, []⟩
  let progress ←
    match scope with
    | .all => start.take (filter.replace start.node (visibleNode server vantage))
    | .children keys => do
      let known := vantage.known (ancestor?.or server.complete?)
      let progress ← keys.foldlM (refreshChild filter server vantage known) start
      refreshLeaf filter server vantage progress
  let complete := server.complete || (vantage.shadow? []).isSome
  return ({ caches with visible := ⟨progress.node, complete, filter.drops⟩ }, progress.ledger)

end Caches

def Operation.scope : Operation → Scope
  | .overwrite _ path _ => .ofPath path
  | .merge _ path nodes => .ofMerge path nodes
  | .acknowledge path _ nodes => .ofMerge path nodes
  | .listenComplete path => .ofPath path

/-- The value change between two visible caches, if the new one is complete and shows something
else than before. -/
def Change.ofValue (old new : Cache) : List Change :=
  match new.complete? with
  | some node => if !old.complete || !old.node.same node then [.value node] else []
  | none => []

/-- Applies an operation to the caches of a view. The pending writes are those after the
operation. -/
def Caches.apply (filter : Filter) (caches : Caches) (operation : Operation) (vantage : Vantage)
    (ancestor? : Option Node) : Except SyncError Update := do
  let received := receive filter caches operation
  let (refreshed, ledger) ← refresh filter received operation.scope vantage ancestor?
  return ⟨refreshed, ledger.changes ++ Change.ofValue caches.visible refreshed.visible⟩

end Replica
