import Replica.Path
import Replica.Scalar
import Replica.Sorted

/-!
# Nodes

A node is a snapshot of tree-shaped data: a leaf with a scalar, or a branch with named children,
either with a priority of its own or without one. Every operation returns a new node.

The operations keep nodes canonical: the children of a branch are in key order, none of them is
empty and none is stored under the priority key, and the branch without children has no priority.
That branch is the empty node, and stands for the absence of data.
-/

namespace Replica

/-- A snapshot of tree-shaped data. -/
inductive Node where
  | leaf (value : Scalar) (priority : Option Priority)
  | branch (children : List (Key × Node)) (priority : Option Priority)

namespace Node

def empty : Node := .branch [] none

instance : Inhabited Node := ⟨empty⟩

def ofScalar (value : Scalar) : Node := .leaf value none

/-- A branch with the given children, which are in key order. Without children nothing is left,
not even the priority. -/
def ofSorted (children : List (Key × Node)) (priority : Option Priority) : Node :=
  if children.isEmpty then empty else .branch children priority

/-! ## Looking -/

def isEmpty : Node → Bool
  | .leaf _ _ => false
  | .branch children _ => children.isEmpty

def isLeaf : Node → Bool
  | .leaf _ _ => true
  | .branch _ _ => false

def value? : Node → Option Scalar
  | .leaf value _ => some value
  | .branch _ _ => none

def priority? : Node → Option Priority
  | .leaf _ priority => priority
  | .branch _ priority => priority

/-- The children in key order; a leaf has none. -/
def children : Node → List (Key × Node)
  | .leaf _ _ => []
  | .branch children _ => children

def priorityNode (node : Node) : Node :=
  match node.priority? with
  | some priority => ofScalar priority.toScalar
  | none => empty

def hasChild (node : Node) (key : Key) : Bool :=
  if key.isPriority then node.priority?.isSome else Sorted.contains key node.children

/-- The child under a key, or nothing. The priority key shows the priority. -/
def child (node : Node) (key : Key) : Node :=
  if key.isPriority then node.priorityNode else (Sorted.find? key node.children).getD empty

/-- The node at a location below this one, or nothing. -/
def descendant : Node → Path → Node
  | node, [] => node
  | node, key :: rest => (node.child key).descendant rest

/-! ## Comparing -/

mutual

/-- Whether two nodes hold the same data, whatever their priorities. -/
def dataEq : Node → Node → Bool
  | .leaf a _, .leaf b _ => a == b
  | .branch as _, .branch bs _ => dataEqAll as bs
  | _, _ => false

def dataEqAll : List (Key × Node) → List (Key × Node) → Bool
  | [], [] => true
  | (key, a) :: as, (other, b) :: bs => key == other && dataEq a b && dataEqAll as bs
  | _, _ => false

end

mutual

/-- Whether two nodes hold the same data and the same priorities at every level. -/
def same : Node → Node → Bool
  | .leaf a p, .leaf b q => Priority.orderOptional p q == .eq && a == b
  | .branch as p, .branch bs q => Priority.orderOptional p q == .eq && sameAll as bs
  | _, _ => false

def sameAll : List (Key × Node) → List (Key × Node) → Bool
  | [], [] => true
  | (key, a) :: as, (other, b) :: bs => key == other && same a b && sameAll as bs
  | _, _ => false

end

/-! ## Changing -/

/-- Replaces the priority. Nothing has no priority, and an equal priority is left in place. -/
def setPriority (node : Node) (priority : Option Priority) : Node :=
  if Priority.orderOptional node.priority? priority == .eq then node
  else
    match node with
    | .leaf value _ => .leaf value priority
    | .branch [] _ => node
    | .branch children _ => .branch children priority

/-- A branch with the given children. Empty ones are left out, so is the priority key, and of
children under one key the last one counts. -/
def ofChildren (children : List (Key × Node)) : Node :=
  ofSorted (Sorted.ofList (children.filter fun (key, node) => !node.isEmpty && !key.isPriority))
    none

/-- Replaces the child under a key. An empty child removes the key. A child written into a leaf
turns it into a branch that keeps the leaf's priority. Under the priority key the priority is
replaced, and cleared by anything that cannot be one. A child that is the same as the one in
place changes nothing. -/
def setChild (node : Node) (key : Key) (child : Node) : Node :=
  if key.isPriority then node.setPriority (child.value?.bind Priority.ofScalar?)
  else
    match node with
    | .leaf _ priority => if child.isEmpty then node else .branch [(key, child)] priority
    | .branch children priority =>
      match Sorted.find? key children with
      | some existing =>
        if existing.same child then node
        else if child.isEmpty then ofSorted (Sorted.erase key children) priority
        else ofSorted (Sorted.insert key child children) priority
      | none =>
        if child.isEmpty then node else ofSorted (Sorted.insert key child children) priority

/-- Replaces the node at a location below this one. At the priority key the location ends,
whatever follows. -/
def setDescendant : Node → Path → Node → Node
  | _, [], replacement => replacement
  | node, key :: rest, replacement =>
    if key.isPriority then node.setChild key replacement
    else node.setChild key ((node.child key).setDescendant rest replacement)

end Node

end Replica
