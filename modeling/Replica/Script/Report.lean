import Replica.Script.Replay

/-!
# Reports on a replay

The events of a replay are reported as one line each or as a JSON array, and the counters of the
engine as a table.
-/

namespace Replica

namespace Record

/-- A number in at least four columns. -/
def column (n : Nat) : String :=
  let digits := toString n
  String.ofList (List.replicate (4 - digits.length) ' ') ++ digits

def text (record : Record) : String :=
  column record.line ++ " " ++ record.listener ++ " " ++ record.event.kind.name ++ " " ++
    Path.text record.event.path ++
    ((record.event.key?.map fun key => " key=" ++ key.text).getD "") ++
    " " ++ record.event.node.display ++
    ((record.event.previous?.map fun key => " prev=" ++ key.text).getD "")

/-- The object that reports an event. Members without a value are left out. -/
def toJson (record : Record) : Json :=
  .object <|
    [("line", .integer record.line), ("listener", .string record.listener),
      ("kind", .string record.event.kind.name),
      ("path", .string (Path.text record.event.path))] ++
    (record.event.key?.map fun key => ("key", .string key.text)).toList ++
    [("data", record.event.node.toJson false)] ++
    (record.event.previous?.map fun key => ("prev_key", .string key.text)).toList

end Record

def Counters.table (counters : Counters) : List String :=
  [ "Server operations: " ++ toString counters.serverOperations,
    "User writes:       " ++ toString counters.userWrites,
    "Acks:              " ++ toString counters.acks,
    "Reverts:           " ++ toString counters.reverts,
    "Events raised:     " ++ toString counters.eventsRaised,
    "Views created:     " ++ toString counters.viewsCreated,
    "Views removed:     " ++ toString counters.viewsRemoved,
    "Errors:            " ++ toString counters.errors ]

/-- Lines as a text, each with its line end. -/
def Text.ofLines (lines : List String) : String :=
  String.join (lines.map (· ++ "\n"))

/-- The report on a replay, as JSON or as text, with the counters at the end if asked for. -/
def Replay.report (replay : Replay) (asJson withCounters : Bool) : String :=
  let events :=
    if asJson then [(Json.array (replay.records.map Record.toJson)).indented 0]
    else replay.records.map Record.text
  let counters := if withCounters then "" :: replay.client.engine.counters.table else []
  Text.ofLines (events ++ counters)

end Replica
