import Replica.Json.Reader

/-!
# Messages

Operations travel as JSON objects that name their kind in one member and hold the rest in others.
Reading is strict: every member but one is required and has its type, no member that is read may
occur twice, and members of other names are skipped. Paths and data inside stay as written until
they are used.
-/

namespace Replica

/-- Why the server ended a listen. -/
inductive RevocationCode where
  | permissionDenied
  | tooBig
  | unavailable
  | other (code : String)
  deriving DecidableEq, Repr

namespace RevocationCode

def ofName (name : String) : RevocationCode :=
  if name = "permission_denied" then .permissionDenied
  else if name = "too_big" then .tooBig
  else if name = "unavailable" then .unavailable
  else .other name

def name : RevocationCode → String
  | .permissionDenied => "permission_denied"
  | .tooBig => "too_big"
  | .unavailable => "unavailable"
  | .other code => code

/-- What a code means. -/
def reason : RevocationCode → String
  | .permissionDenied => "client doesn't have permission to access the desired data"
  | .tooBig => "the requested data is too big to be returned"
  | .unavailable => "the service is unavailable"
  | .other _ => "the server cancelled the listen"

end RevocationCode

inductive ServerMessage where
  | overwrite (path : String) (data : Json)
  | merge (path : String) (children : List (String × Json))
  | acknowledge (write : Nat) (rejected : Bool)
  /-- All initial data for a location was sent. -/
  | listenComplete (path : String)
  /-- The listens at and below a location are ended. -/
  | listenRevoked (path : String) (code : RevocationCode)

/-- A local write that brings its own id. -/
inductive UserMessage where
  | overwrite (write : Nat) (path : String) (data : Json)
  | merge (write : Nat) (path : String) (children : List (String × Json))

namespace Json

/-- The value of the only member with a name. A name that occurs twice is refused. -/
def sole? (members : List (String × Json)) (name : String) : Option (Option Json) :=
  match members.filter (·.1 == name) with
  | [] => some none
  | [(_, value)] => some (some value)
  | _ => none

/-- A required member, read in the given way. -/
def required? {α : Type} (members : List (String × Json)) (name : String)
    (read : Json → Option α) : Option α := do
  let value? ← sole? members name
  read (← value?)

/-- A member that may be missing, read in the given way. -/
def optional? {α : Type} (members : List (String × Json)) (name : String) (missing : α)
    (read : Json → Option α) : Option α := do
  match ← sole? members name with
  | some value => read value
  | none => return missing

/-- The canonical members of an object. -/
def map? : Json → Option (List (String × Json))
  | .object members => some (canonicalMembers members)
  | _ => none

end Json

namespace ServerMessage

/-- The names of the kinds of messages. -/
def kinds : List String :=
  ["overwrite", "merge", "ack_user_write", "listen_complete", "listen_revoked"]

/-- Reads a message from JSON, whose members stand as written; `kind?` reads the member that
names the kind. -/
def ofJsonBy? (kind? : Json → Option String) (message : Json) : Option ServerMessage := do
  let members := message.members
  let path := Json.required? members "path" Json.text?
  match ← Json.required? members "op" kind? with
  | "overwrite" =>
    return .overwrite (← path) (← Json.required? members "data" fun data => some data.canonical)
  | "merge" => return .merge (← path) (← Json.required? members "children" Json.map?)
  | "ack_user_write" =>
    return .acknowledge (← Json.required? members "write_id" Json.nat?)
      (← Json.optional? members "revert" false Json.bool?)
  | "listen_complete" => return .listenComplete (← path)
  | "listen_revoked" =>
    return .listenRevoked (← path)
      (.ofName (← Json.required? members "code" Json.text?))
  | _ => none

def ofJson? (message : Json) : Option ServerMessage :=
  ofJsonBy? Json.text? message

/-- Reads the kind of a message that is part of something larger. Its position among the kinds
stands for its name there. -/
def nestedKind? (kind : Json) : Option String :=
  kind.text?.or (kind.nat?.bind fun position => kinds[position]?)

def ofNested? (message : Json) : Option ServerMessage :=
  ofJsonBy? nestedKind? message

def ofText? (text : String) : Option ServerMessage :=
  (Json.read? text).bind ofJson?

def name : ServerMessage → String
  | .overwrite _ _ => "overwrite"
  | .merge _ _ => "merge"
  | .acknowledge _ _ => "ack_user_write"
  | .listenComplete _ => "listen_complete"
  | .listenRevoked _ _ => "listen_revoked"

def toJson (message : ServerMessage) : Json :=
  let rest : List (String × Json) :=
    match message with
    | .overwrite path data => [("path", .string path), ("data", data)]
    | .merge path children => [("path", .string path), ("children", .object children)]
    | .acknowledge write rejected => [("write_id", .integer write), ("revert", .bool rejected)]
    | .listenComplete path => [("path", .string path)]
    | .listenRevoked path code => [("path", .string path), ("code", .string code.name)]
  .object (("op", .string message.name) :: rest)

end ServerMessage

namespace UserMessage

def ofJson? (message : Json) : Option UserMessage := do
  let members := message.members
  let write := Json.required? members "write_id" Json.nat?
  let path := Json.required? members "path" Json.text?
  match ← Json.required? members "op" Json.text? with
  | "overwrite" =>
    return .overwrite (← write) (← path)
      (← Json.required? members "data" fun data => some data.canonical)
  | "merge" => return .merge (← write) (← path) (← Json.required? members "children" Json.map?)
  | _ => none

def ofText? (text : String) : Option UserMessage :=
  (Json.read? text).bind ofJson?

def write : UserMessage → Nat
  | .overwrite write _ _ => write
  | .merge write _ _ => write

def toJson : UserMessage → Json
  | .overwrite write path data =>
    .object [("op", .string "overwrite"), ("write_id", .integer write), ("path", .string path),
      ("data", data)]
  | .merge write path children =>
    .object [("op", .string "merge"), ("write_id", .integer write), ("path", .string path),
      ("children", .object children)]

end UserMessage

end Replica
