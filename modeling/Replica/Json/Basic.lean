import Replica.Number.Basic

/-!
# JSON values

A value keeps integers apart from other numbers, because both are written in their own way.
Objects are lists of members. As read, members stand in the order of the text and names may
repeat; in canonical form they stand in the order of their names, and of members with one name
the last one counts.
-/

namespace Replica

inductive Json where
  | null
  | bool (value : Bool)
  | integer (value : Int)
  | decimal (value : Number)
  | string (text : String)
  | array (items : List Json)
  | object (members : List (String × Json))
  deriving Inhabited

namespace Json

/-- Puts a member at its place among members sorted by name, unless its name is taken. -/
def insertMember (name : String) (value : Json) : List (String × Json) → List (String × Json)
  | [] => [(name, value)]
  | (other, kept) :: rest =>
    match compare name other with
    | .lt => (name, value) :: (other, kept) :: rest
    | .eq => (other, kept) :: rest
    | .gt => (other, kept) :: insertMember name value rest

mutual

/-- The canonical form: members of every object sorted by name, the last one of a name kept. -/
def canonical : Json → Json
  | .null => .null
  | .bool value => .bool value
  | .integer value => .integer value
  | .decimal value => .decimal value
  | .string text => .string text
  | .array items => .array (canonicalItems items)
  | .object members => .object (canonicalMembers members)

def canonicalItems : List Json → List Json
  | [] => []
  | item :: rest => canonical item :: canonicalItems rest

/-- Members in canonical form. Later members are placed first, so they win. -/
def canonicalMembers : List (String × Json) → List (String × Json)
  | [] => []
  | (name, value) :: rest => insertMember name (canonical value) (canonicalMembers rest)

end

/-- An object in canonical form from members with canonical values. -/
def ofMembers (members : List (String × Json)) : Json :=
  .object (members.foldr (fun (name, value) rest => insertMember name value rest) [])

/-- The members of an object; other values have none. -/
def members : Json → List (String × Json)
  | .object members => members
  | _ => []

/-- The value of the first member with a name. -/
def member? (value : Json) (name : String) : Option Json :=
  value.members.lookup name

def text? : Json → Option String
  | .string text => some text
  | _ => none

def bool? : Json → Option Bool
  | .bool value => some value
  | _ => none

/-- The value of an unsigned 64-bit integer. -/
def nat? : Json → Option Nat
  | .integer value => if 0 ≤ value ∧ value.toNat < UInt64.size then some value.toNat else none
  | _ => none

def items? : Json → Option (List Json)
  | .array items => some items
  | _ => none

end Json

end Replica
