import Replica.DataError
import Replica.Number.Text

/-!
# Scalars and priorities

A scalar is the value of a leaf. A priority is a number or a text attached to a node. Both are
compared by value, so the two zeros count as equal.
-/

namespace Replica

inductive Scalar where
  | bool (value : Bool)
  | number (value : Number)
  | text (value : String)

/-- Orders scalars: booleans, then numbers, then texts. -/
def Scalar.order : Scalar → Scalar → Ordering
  | .bool a, .bool b => compare a b
  | .bool _, _ => .lt
  | .number _, .bool _ => .gt
  | .number a, .number b => compare a b
  | .number _, .text _ => .lt
  | .text a, .text b => compare a b
  | .text _, _ => .gt

instance : Ord Scalar := ⟨Scalar.order⟩

/-- Scalars are equal when neither comes before the other. -/
instance : BEq Scalar := ⟨fun a b => compare a b == .eq⟩

def Scalar.display : Scalar → String
  | .bool value => if value then "true" else "false"
  | .number value => value.text .plain
  | .text value => Text.quoted value

/-- What a node may be ordered by. -/
inductive Priority where
  | number (value : Number)
  | text (value : String)

/-- Orders priorities: numbers, then texts. -/
def Priority.order : Priority → Priority → Ordering
  | .number a, .number b => compare a b
  | .number _, .text _ => .lt
  | .text _, .number _ => .gt
  | .text a, .text b => compare a b

instance : Ord Priority := ⟨Priority.order⟩

/-- Orders optional priorities, their absence first. -/
def Priority.orderOptional : Option Priority → Option Priority → Ordering
  | none, none => .eq
  | none, some _ => .lt
  | some _, none => .gt
  | some a, some b => compare a b

def Priority.toScalar : Priority → Scalar
  | .number value => .number value
  | .text value => .text value

/-- The priority of a scalar. Booleans are no priorities. -/
def Priority.ofScalar : Scalar → Except DataError Priority
  | .bool value => .error (.priority (.boolean value))
  | .number value => .ok (.number value)
  | .text value => .ok (.text value)

def Priority.ofScalar? (scalar : Scalar) : Option Priority :=
  (Priority.ofScalar scalar).toOption

end Replica
