import Replica.Client.Basic

/-!
# Steps of a script

A script is a text with one step on each line. A step is a JSON object that names its kind in one
member; other members that the kind does not know are skipped.
-/

namespace Replica

/-- A listener as a script asks for it. Orders, kinds, paths and bounds stay as written until the
step is taken. -/
structure ListenStep where
  name : String
  path : String
  /-- The names of the kinds wanted; without any, all kinds. -/
  kinds : List String
  order? : Option String
  startAt? : Option Json
  endAt? : Option Json
  limitToFirst? : Option Nat
  limitToLast? : Option Nat

inductive Step where
  | listen (listener : ListenStep)
  | unlisten (name : String)
  | set (path : String) (data : Json)
  | update (path : String) (children : List (String × Json))
  | server (message : ServerMessage)

namespace Step

/-- Reads a member that may be null or missing. -/
def nullable? {α : Type} (members : List (String × Json)) (name : String)
    (read : Json → Option α) : Option (Option α) :=
  Json.optional? members name none fun value =>
    match value with
    | .null => some none
    | _ => (read value).map some

def names? (value : Json) : Option (List String) :=
  value.items?.bind fun items => items.mapM Json.text?

def listener? (members : List (String × Json)) : Option ListenStep := do
  let name ← Json.required? members "id" Json.text?
  let path ← Json.required? members "path" Json.text?
  let kinds ← Json.optional? members "kinds" [] names?
  let order? ← nullable? members "order_by" Json.text?
  let startAt? ← nullable? members "start_at" fun value => some value.canonical
  let endAt? ← nullable? members "end_at" fun value => some value.canonical
  let limitToFirst? ← nullable? members "limit_to_first" Json.nat?
  let limitToLast? ← nullable? members "limit_to_last" Json.nat?
  return { name, path, kinds, order?, startAt?, endAt?, limitToFirst?, limitToLast? }

/-- Reads a step from JSON, whose members stand as written. -/
def ofJson? (step : Json) : Option Step := do
  let members := step.members
  match ← Json.required? members "step" Json.text? with
  | "listen" => return .listen (← listener? members)
  | "unlisten" => return .unlisten (← Json.required? members "id" Json.text?)
  | "set" =>
    return .set (← Json.required? members "path" Json.text?)
      (← Json.required? members "data" fun data => some data.canonical)
  | "update" =>
    return .update (← Json.required? members "path" Json.text?)
      (← Json.required? members "children" Json.map?)
  | "server" => return .server (← Json.required? members "operation" ServerMessage.ofNested?)
  | _ => none

def ofLine? (line : String) : Option Step :=
  (Json.read? line).bind ofJson?

end Step

end Replica
