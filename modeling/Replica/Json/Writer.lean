import Replica.Json.Basic
import Replica.Number.Text

/-!
# Writing JSON

The compact form has no blanks. The indented form puts every item and member on a line of its
own, two blanks deeper than its container, and leaves empty containers on one line.
-/

namespace Replica.Json

/-- A character below the space without an escape of its own, as four hexadecimal digits. -/
def controlText (c : Char) : String :=
  let digits := Nat.toDigits 16 c.toNat
  "\\u" ++ String.ofList (List.replicate (4 - digits.length) '0' ++ digits)

def charText (c : Char) : String :=
  if c = '\x22' then "\\\""
  else if c = '\\' then "\\\\"
  else if c = '\x08' then "\\b"
  else if c = '\x0c' then "\\f"
  else if c = '\n' then "\\n"
  else if c = '\r' then "\\r"
  else if c = '\t' then "\\t"
  else if c.toNat < 0x20 then controlText c
  else c.toString

def stringText (text : String) : String :=
  "\"" ++ String.join (text.toList.map charText) ++ "\""

def boolText (value : Bool) : String :=
  if value then "true" else "false"

mutual

def compact : Json → String
  | .null => "null"
  | .bool value => boolText value
  | .integer value => toString value
  | .decimal value => value.text .document
  | .string text => stringText text
  | .array items => "[" ++ ",".intercalate (compactItems items) ++ "]"
  | .object members => "\x7b" ++ ",".intercalate (compactMembers members) ++ "\x7d"

def compactItems : List Json → List String
  | [] => []
  | item :: rest => compact item :: compactItems rest

def compactMembers : List (String × Json) → List String
  | [] => []
  | (name, value) :: rest => (stringText name ++ ":" ++ compact value) :: compactMembers rest

end

/-- Written entries on lines of their own between two brackets, at a depth. -/
def block (opening closing : String) (depth : Nat) (entries : List String) : String :=
  if entries.isEmpty then opening ++ closing
  else
    let margin (depth : Nat) := "\n" ++ String.ofList (List.replicate (2 * depth) ' ')
    opening ++ margin (depth + 1) ++ ("," ++ margin (depth + 1)).intercalate entries ++
      margin depth ++ closing

mutual

/-- The indented form of a value that stands at a depth. -/
def indented (depth : Nat) : Json → String
  | .null => "null"
  | .bool value => boolText value
  | .integer value => toString value
  | .decimal value => value.text .document
  | .string text => stringText text
  | .array items => block "[" "]" depth (indentedItems (depth + 1) items)
  | .object members => block "\x7b" "\x7d" depth (indentedMembers (depth + 1) members)

def indentedItems (depth : Nat) : List Json → List String
  | [] => []
  | item :: rest => indented depth item :: indentedItems depth rest

def indentedMembers (depth : Nat) : List (String × Json) → List String
  | [] => []
  | (name, value) :: rest =>
    (stringText name ++ ": " ++ indented depth value) :: indentedMembers depth rest

end

end Replica.Json
