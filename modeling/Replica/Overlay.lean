import Replica.Index

/-!
# Overlays

An overlay is a set of writes, each a node at a location, laid over a tree. No location of an
overlay is above another one: a write below an existing one is folded into it, and a write above
existing ones replaces them. An empty node deletes its location.
-/

namespace Replica

/-- Writes at locations that do not contain one another, in path order. -/
structure Overlay where
  writes : List (Path × Node) := []

namespace Overlay

def empty : Overlay := {}

instance : Inhabited Overlay := ⟨empty⟩

def isEmpty (overlay : Overlay) : Bool := overlay.writes.isEmpty

def size (overlay : Overlay) : Nat := overlay.writes.length

/-- The write at a location or at the nearest one above it, with its own location. -/
def covering? (overlay : Overlay) (path : Path) : Option (Path × Node) :=
  overlay.writes.find? fun (written, _) => Path.contains written path

def add (overlay : Overlay) (path : Path) (node : Node) : Overlay :=
  match overlay.covering? path with
  | some (written, existing) =>
    let below := (Path.below? path written).getD []
    ⟨Sorted.insert written (existing.setDescendant below node) overlay.writes⟩
  | none =>
    let outside := overlay.writes.filter fun (written, _) => !Path.contains path written
    ⟨Sorted.insert path node outside⟩

/-- Writes every node of another overlay below a location. -/
def addBelow (overlay : Overlay) (path : Path) (other : Overlay) : Overlay :=
  other.writes.foldl (fun all (below, node) => all.add (path ++ below) node) overlay

def ofNode (node : Node) : Overlay := empty.add [] node

/-- The overlay of writes made in the given order. -/
def ofWrites (writes : List (Path × Node)) : Overlay :=
  writes.foldl (fun all (path, node) => all.add path node) empty

/-- The node at a location, if the overlay alone determines it. -/
def node? (overlay : Overlay) (path : Path) : Option Node :=
  (overlay.covering? path).map fun (written, node) =>
    node.descendant ((Path.below? path written).getD [])

def determines (overlay : Overlay) (path : Path) : Bool :=
  (overlay.covering? path).isSome

/-- The node that replaces everything, if there is one. -/
def root? (overlay : Overlay) : Option Node :=
  Sorted.find? [] overlay.writes

/-- The writes below a location, seen from there. -/
def restrict (overlay : Overlay) (path : Path) : Overlay :=
  if path.isEmpty then overlay
  else
    match overlay.node? path with
    | some node => ofNode node
    | none =>
      ⟨overlay.writes.filterMap fun (written, node) =>
        (Path.below? written path).map fun below => (below, node)⟩

def children (overlay : Overlay) : List (Key × Node) :=
  match overlay.root? with
  | some node => node.children
  | none =>
    overlay.writes.filterMap fun (written, node) =>
      match written with
      | [key] => if key.isPriority then none else some (key, node)
      | _ => none

def isPriorityPath (path : Path) : Bool :=
  path.getLast?.any Key.isPriority

/-- Lays the writes over a node. Priorities come last, so that they meet the data of the other
writes. -/
def apply (overlay : Overlay) (node : Node) : Node :=
  let (priorities, data) := overlay.writes.partition fun (path, _) => isPriorityPath path
  (data ++ priorities).foldl (fun tree (path, written) => tree.setDescendant path written) node

end Overlay

end Replica
