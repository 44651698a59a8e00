import Replica.Node.Document

/-!
# Sibling order

An index is the order that a query applies to the children of its location. Each one compares a
single aspect of the children and falls back to the keys, so siblings never tie.
-/

namespace Replica

/-- What siblings are ordered by. -/
inductive Index where
  | priority
  | key
  | value
  /-- By the value at a location below each child. -/
  | child (path : Path)
  deriving DecidableEq, Inhabited

/-- The place of a node among kinds of data: nothing, leaves, branches. -/
def Node.rank (node : Node) : Nat :=
  if node.isEmpty then 0 else if node.isLeaf then 1 else 2

/-- Orders nodes by value: nothing, then leaves by their scalars, then branches, which all count
as equal. -/
def Node.orderValues (a b : Node) : Ordering :=
  match a.value?, b.value? with
  | some x, some y => compare x y
  | _, _ => compare a.rank b.rank

namespace Index

/-- Orders two nodes by the aspect of the index alone. -/
def orderNodes (index : Index) (a b : Node) : Ordering :=
  match index with
  | .priority => Priority.orderOptional a.priority? b.priority?
  | .key => .eq
  | .value => a.orderValues b
  | .child path => (a.descendant path).orderValues (b.descendant path)

def order (index : Index) (a b : Key × Node) : Ordering :=
  (index.orderNodes a.2 b.2).then (compare a.1 b.1)

def atMost (index : Index) (a b : Key × Node) : Bool :=
  index.order a b != .gt

/-- Whether a child that goes from one node to another may change its position. -/
def moves (index : Index) (old new : Node) : Bool :=
  index.orderNodes old new != .eq

/-- The sibling that stands at a bound. Under the key order a text value names the position. -/
def bound (index : Index) (value : Node) (name : Key) : Key × Node :=
  match index with
  | .priority =>
    (name, (Node.ofScalar (.bool true)).setPriority (value.value?.bind Priority.ofScalar?))
  | .key =>
    match value.value? with
    | some (.text text) => (⟨text⟩, .empty)
    | _ => (name, .empty)
  | .value => (name, value)
  | .child path => (name, Node.empty.setDescendant path value)

def identifier : Index → String
  | .priority => ".priority"
  | .key => ".key"
  | .value => ".value"
  | .child path => Path.text path

def sort (index : Index) (siblings : List (Key × Node)) : List (Key × Node) :=
  siblings.mergeSort index.atMost

end Index

def Node.sorted (node : Node) (index : Index) : List (Key × Node) :=
  index.sort node.children

/-- The key directly before another one in a list of siblings. -/
def Index.before? (key : Key) : List (Key × Node) → Option Key
  | (a, _) :: (b, y) :: rest =>
    if a = key then none else if b = key then some a else before? key ((b, y) :: rest)
  | _ => none

/-- The key that stands directly before another one under an index. -/
def Node.predecessor? (node : Node) (key : Key) (index : Index) : Option Key :=
  Index.before? key (node.sorted index)

end Replica
