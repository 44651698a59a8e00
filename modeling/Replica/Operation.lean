import Replica.Overlay

/-!
# Operations

An operation is a change to route to the views it concerns. Its location is relative to the
receiver, and the operation can be seen from any location above or below its own.
-/

namespace Replica

inductive Source where
  | user
  | server
  deriving DecidableEq, Repr

/-- A change to apply to views. -/
inductive Operation where
  | overwrite (source : Source) (path : Path) (node : Node)
  | merge (source : Source) (path : Path) (nodes : Overlay)
  | acknowledge (path : Path) (rejected : Bool) (nodes : Overlay)
  | listenComplete (path : Path)

namespace Operation

def path : Operation → Path
  | .overwrite _ path _ => path
  | .merge _ path _ => path
  | .acknowledge path _ _ => path
  | .listenComplete path => path

def source : Operation → Source
  | .overwrite source _ _ => source
  | .merge source _ _ => source
  | .acknowledge _ _ _ => .server
  | .listenComplete _ => .server

/-- The same operation at another location. -/
def withPath : Operation → Path → Operation
  | .overwrite source _ node, path => .overwrite source path node
  | .merge source _ nodes, path => .merge source path nodes
  | .acknowledge _ rejected nodes, path => .acknowledge path rejected nodes
  | .listenComplete _, path => .listenComplete path

/-- An operation at the receiver as seen from a child of the receiver. -/
def descend? (operation : Operation) (key : Key) : Option Operation :=
  match operation with
  | .overwrite source _ node => some (.overwrite source [] (node.child key))
  | .merge source _ nodes =>
    let below := nodes.restrict [key]
    if below.isEmpty then none
    else
      match below.root? with
      | some root => some (.overwrite source [] root)
      | none => some (.merge source [] below)
  | .acknowledge _ rejected nodes =>
    let below := nodes.restrict [key]
    if below.isEmpty then none else some (.acknowledge [] rejected below)
  | .listenComplete _ => some (.listenComplete [])

/-- An operation as seen from a child of the receiver, if it reaches that child. -/
def forChild? (operation : Operation) (key : Key) : Option Operation :=
  match operation.path with
  | [] => operation.descend? key
  | first :: rest => if first = key then some (operation.withPath rest) else none

/-- An operation as seen from a location, if it reaches that location. -/
def relativeTo? (operation : Operation) (base : Path) : Option Operation :=
  match Path.below? operation.path base with
  | some path => some (operation.withPath path)
  | none =>
    match Path.below? base operation.path with
    | some below => below.foldlM forChild? (operation.withPath [])
    | none => none

end Operation

end Replica
