import Replica.Node.Basic
import Replica.Json.Reader
import Replica.Json.Writer

/-!
# Nodes as JSON documents

A leaf is written as its value and a branch as an object. A priority travels under the reserved
priority key, and then the value of a leaf under the reserved value key. Reading also takes
arrays, whose items become children named by their positions; null and empty containers are no
data.
-/

namespace Replica.Node

/-! ## Reading -/

/-- The scalar of a JSON value; null and containers have none. -/
def scalarOf : Json → Except DataError (Option Scalar)
  | .bool value => .ok (some (.bool value))
  | .integer value =>
    (Number.ofInt? value).elim (.error .nonFinite) fun number => .ok (some (.number number))
  | .decimal value => .ok (some (.number value))
  | .string text => .ok (some (.text text))
  | .null | .array _ | .object _ => .ok none

/-- The priority of a JSON value; null is none. -/
def priorityOf (document : Json) : Except DataError (Option Priority) := do
  match document with
  | .array _ | .object _ => throw (.priority .container)
  | _ =>
    match ← scalarOf document with
    | some scalar => return some (← Priority.ofScalar scalar)
    | none => return none

/-- The leaf of an object with a value key, whose other members may only be a priority. -/
def leafOf (members : List (String × Json)) (inner : Json) (priority : Option Priority) :
    Except DataError Node := do
  if members.any fun (name, _) => name != Key.value.text && name != Key.priority.text then
    throw (.document .valueBesideChildren)
  match ← scalarOf inner, inner with
  | some scalar, _ => return (ofScalar scalar).setPriority priority
  | none, .null => return empty.setPriority priority
  | none, _ => throw (.document .valueNotScalar)

mutual

def ofJson : Json → Except DataError Node
  | .null => .ok empty
  | .array items => do
    let children ← itemsOf 0 items
    return ofChildren children
  | .object members => do
    let priority ← ((members.lookup Key.priority.text).map priorityOf).getD (.ok none)
    match members.lookup Key.value.text with
    | some inner => leafOf members inner priority
    | none =>
      let children ← membersOf members
      return (ofChildren children).setPriority priority
  | document => do
    match ← scalarOf document with
    | some scalar => return ofScalar scalar
    | none => return empty

/-- Reads array items as children named by their positions, the first one given. -/
def itemsOf (position : Nat) : List Json → Except DataError (List (Key × Node))
  | [] => .ok []
  | item :: rest => do
    let node ← ofJson item
    let others ← itemsOf (position + 1) rest
    return (⟨toString position⟩, node) :: others

/-- Reads object members as children. The priority is no child. -/
def membersOf : List (String × Json) → Except DataError (List (Key × Node))
  | [] => .ok []
  | (name, value) :: rest => do
    if name = Key.priority.text then membersOf rest
    else
      let key ← Key.parse name
      let node ← ofJson value
      let others ← membersOf rest
      return (key, node) :: others

end

def ofText (text : String) : Except DataError Node :=
  match Json.parse? text with
  | some document => ofJson document
  | none => .error (.document .unreadable)

/-! ## Writing -/

/-- The largest magnitude up to which every integer is a number of its own. -/
def maxExactInteger : Nat := 0x1FFFFFFFFFFFFF

/-- A number is written as an integer where that says exactly the same. -/
def numberToJson (number : Number) : Json :=
  match number.toInt? with
  | some n => if n.natAbs ≤ maxExactInteger then .integer n else .decimal number
  | none => .decimal number

def scalarToJson : Scalar → Json
  | .bool value => .bool value
  | .number value => numberToJson value
  | .text value => .string value

def priorityMembers (withPriorities : Bool) (priority : Option Priority) : List (String × Json) :=
  match withPriorities, priority with
  | true, some priority => [(Key.priority.text, scalarToJson priority.toScalar)]
  | _, _ => []

mutual

/-- Writes a node as a JSON document, with its priorities or without them. -/
def toJson (withPriorities : Bool) : Node → Json
  | .leaf value priority =>
    match priorityMembers withPriorities priority with
    | [] => scalarToJson value
    | members => Json.ofMembers ((Key.value.text, scalarToJson value) :: members)
  | .branch children priority =>
    if children.isEmpty then .null
    else
      Json.ofMembers (childMembers withPriorities children ++
        priorityMembers withPriorities priority)

def childMembers (withPriorities : Bool) : List (Key × Node) → List (String × Json)
  | [] => []
  | (key, node) :: rest =>
    (key.text, toJson withPriorities node) :: childMembers withPriorities rest

end

/-- The text of a node's data, without priorities. -/
def display (node : Node) : String :=
  (node.toJson false).compact

def debugText (node : Node) : String :=
  "Node(" ++ (node.toJson true).compact ++ ")"

end Replica.Node
