import Replica.Overlay
import Replica.SyncError
import Replica.Cache

/-!
# Pending writes

Local writes wait in the order of their ids until the server acknowledges them. Meanwhile the
visible ones are laid over the data of the server. The overlay is always the one that making the
visible writes again, in order, would give.
-/

namespace Replica

inductive Payload where
  | overwrite (node : Node)
  | merge (nodes : Overlay)

/-- A local write that the server has not acknowledged yet. -/
structure Write where
  id : WriteId
  path : Path
  payload : Payload
  /-- Whether listeners see the write before it is acknowledged. -/
  visible : Bool

/-- The data of a write as an overlay at the location of the write. -/
def Write.overlay (write : Write) : Overlay :=
  match write.payload with
  | .overwrite node => .ofNode node
  | .merge nodes => nodes

/-- Lays a write over those before it. -/
def Overlay.addWrite (overlay : Overlay) (write : Write) : Overlay :=
  match write.payload with
  | .overwrite node => overlay.add write.path node
  | .merge nodes => overlay.addBelow write.path nodes

/-- The overlay of writes made in order. -/
def Overlay.layer (writes : List Write) : Overlay :=
  writes.foldl Overlay.addWrite .empty

/-- All pending writes in the order of their ids. -/
structure Pending where
  writes : List Write := []
  /-- The visible writes laid over one another. -/
  overlay : Overlay := {}
  /-- The last id ever taken. -/
  last? : Option WriteId := none
  /-- How many writes may be pending at once, if that is limited. -/
  limit? : Option Nat := none

namespace Pending

/-- Checks that a write may be added: its id is above every earlier one, and there is room. -/
def check (pending : Pending) (id : WriteId) : Except SyncError Unit := do
  if let some last := pending.last? then
    if id ≤ last then throw (.staleWrite last id)
  if let some limit := pending.limit? then
    if limit ≤ pending.writes.length then throw (.tooManyPending limit)

def add (pending : Pending) (write : Write) : Except SyncError Pending := do
  pending.check write.id
  return { pending with
    writes := pending.writes ++ [write]
    overlay := if write.visible then pending.overlay.addWrite write else pending.overlay
    last? := some write.id }

def addOverwrite (pending : Pending) (id : WriteId) (path : Path) (node : Node)
    (visible : Bool) : Except SyncError Pending :=
  pending.add ⟨id, path, .overwrite node, visible⟩

/-- Adds a write of nodes below a location. Such writes are always visible. -/
def addMerge (pending : Pending) (id : WriteId) (path : Path) (nodes : Overlay) :
    Except SyncError Pending :=
  pending.add ⟨id, path, .merge nodes, true⟩

/-- Removes a write. If it was visible, the overlay is laid anew without it. -/
def remove (pending : Pending) (id : WriteId) : Except SyncError (Write × Pending) :=
  match pending.writes.find? (·.id == id) with
  | none => .error (.unknownWrite id)
  | some write =>
    let others := pending.writes.eraseP (·.id == id)
    let overlay :=
      if write.visible then .layer (others.filter (·.visible)) else pending.overlay
    .ok (write, { pending with writes := others, overlay := overlay })

def overlayOf (pending : Pending) (withHidden : Bool) : Overlay :=
  if withHidden && pending.writes.any (!·.visible) then .layer pending.writes
  else pending.overlay

/-- The node at a location with the pending writes over the server's data. Nothing is known
where neither the server's data nor a write determines the location. -/
def node? (pending : Pending) (path : Path) (server? : Option Node) (withHidden : Bool) :
    Option Node :=
  let overlay := (pending.overlayOf withHidden).restrict path
  if overlay.isEmpty then server?
  else if server?.isNone && !overlay.determines [] then none
  else some (overlay.apply (server?.getD .empty))

end Pending

/-- The pending writes seen from one location. -/
structure Vantage where
  pending : Pending
  path : Path

namespace Vantage

/-- The visible writes below the location, seen from there. -/
def overlay (vantage : Vantage) : Overlay :=
  vantage.pending.overlay.restrict vantage.path

def child (vantage : Vantage) (key : Key) : Vantage :=
  { vantage with path := vantage.path ++ [key] }

/-- The node that visible writes alone determine at a location below. -/
def shadow? (vantage : Vantage) (path : Path) : Option Node :=
  vantage.pending.overlay.node? (vantage.path ++ path)

def node? (vantage : Vantage) (server? : Option Node) : Option Node :=
  vantage.pending.node? vantage.path server? false

/-- The children at the location, with the visible writes over as many children as the server's
data has. -/
def children (vantage : Vantage) (server? : Option Node) : Node :=
  match vantage.shadow? [] with
  | some top => if top.isLeaf then .empty else .ofChildren top.children
  | none =>
    let overlay := vantage.overlay
    let known := (server?.map Node.children).getD []
    let written := known.foldl
      (fun all (key, child) => all.setChild key ((overlay.restrict [key]).apply child)) .empty
    overlay.children.foldl (fun all (key, child) => all.setChild key child) written

/-- The child under a key, if a write or the server's data determines it. -/
def child? (vantage : Vantage) (key : Key) (server : Cache) : Option Node :=
  let path := vantage.path ++ [key]
  match vantage.pending.overlay.node? path with
  | some shadow => some shadow
  | none =>
    if server.knowsChild key then
      some ((vantage.pending.overlay.restrict path).apply (server.node.child key))
    else none

/-- The node whose children may slide into a window: the server's data with the visible writes
over it, as far as either is known. -/
def known (vantage : Vantage) (server? : Option Node) : Node :=
  match vantage.overlay.root?, server? with
  | some root, _ => root
  | none, some server => vantage.overlay.apply server
  | none, none => .empty

/-- The first child behind a sibling in an order or in its reverse, with the visible writes over
the server's data. -/
def next? (vantage : Vantage) (server? : Option Node) (sibling : Key × Node) (reverse : Bool)
    (index : Index) : Option (Key × Node) :=
  let sorted := (vantage.known server?).sorted index
  if reverse then sorted.reverse.find? fun candidate => index.order candidate sibling == .lt
  else sorted.find? fun candidate => index.order candidate sibling == .gt

end Vantage

def Pending.at (pending : Pending) (path : Path) : Vantage := ⟨pending, path⟩

end Replica
