import Replica.Script.Step
import Replica.Text.Lines

/-!
# Replaying a script

A script is taken step by step by a client that is not connected to a server. The events handed
to its listeners are recorded with the line of the step that raised them. The first step that
fails ends the replay.
-/

namespace Replica

/-- Why a step fails. -/
inductive StepFault where
  /-- The line is no step. -/
  | unreadable
  | listenerExists (name : String)
  | unknownListener (name : String)
  | unknownOrder (name : String)
  | unknownKind (name : String)
  | client (error : ClientError)
  deriving DecidableEq, Repr

def StepFault.message : StepFault → String
  | .unreadable => "not a step"
  | .listenerExists name => "listener " ++ name ++ " already exists"
  | .unknownListener name => "unknown listener " ++ name
  | .unknownOrder name => "unknown index " ++ name
  | .unknownKind name => "unknown event kind " ++ name
  | .client error => error.message

/-- A step that failed, by its line. -/
structure ScriptError where
  line : Nat
  fault : StepFault
  deriving DecidableEq, Repr

def ScriptError.message (error : ScriptError) : String :=
  "line " ++ toString error.line ++ ": " ++ error.fault.message

/-- An event as recorded, with the line of its step and the name of its listener. -/
structure Record where
  line : Nat
  listener : String
  event : Event

/-- The client, the listeners by name, and what was recorded so far. -/
structure Replay where
  client : Client := .create { engine := { session := "replay" } }
  names : List (String × ListenerId) := []
  records : List Record := []

namespace Replay

/-- A failure of the client or of the data in a step. -/
def ofData {α : Type} (result : Except DataError α) : Except StepFault α :=
  result.mapError fun error => .client (.data error)

/-- The order with a name. An order by the value below each child names the location there. -/
def orderOf (name : String) : Except StepFault Index :=
  if name = "priority" then .ok .priority
  else if name = "key" then .ok .key
  else if name = "value" then .ok .value
  else if name.startsWith "child:" then
    ofData ((Path.parse (String.ofList (name.toList.drop 6))).map .child)
  else .error (.unknownOrder name)

def boundOf : Option Json → Except StepFault (Option Bound)
  | none => .ok none
  | some document => do
    let value ← ofData (Node.ofJson document)
    return some ⟨value, none⟩

/-- The selection that a step asks for. Of two limits the one to the last children counts. -/
def selectionOf (step : ListenStep) : Except StepFault Selection := do
  let index ← (step.order?.map orderOf).getD (.ok .priority)
  let lower? ← boundOf step.startAt?
  let upper? ← boundOf step.endAt?
  let limit? := (step.limitToLast?.map Limit.last).or (step.limitToFirst?.map Limit.first)
  return { index, lower?, upper?, limit? }

def kindsOf (names : List String) : Except StepFault (List ChangeKind) :=
  if names.isEmpty then .ok ChangeKind.all
  else names.mapM fun name =>
    match ChangeKind.ofName? name with
    | some kind => .ok kind
    | none => .error (.unknownKind name)

def writesOf : List (String × Json) → Except StepFault (List (Path × Node))
  | [] => .ok []
  | (source, document) :: rest => do
    let path ← ofData (Path.parse source)
    let node ← ofData (Node.ofJson document)
    let others ← writesOf rest
    return (path, node) :: others

def nameOf (replay : Replay) (listener : ListenerId) : String :=
  ((replay.names.find? (·.2 == listener)).map (·.1)).getD ""

/-- The replay after a call to the client, with the answer of the call. -/
def after {α : Type} (replay : Replay) (outcome : Outcome α) :
    Except StepFault (α × List Event × Replay) :=
  match outcome.result with
  | .ok answer => .ok (answer, outcome.delivered, { replay with client := outcome.client })
  | .error error => .error (.client error)

def take (replay : Replay) : Step → Except StepFault (List Event × Replay)
  | .listen step => do
    if Sorted.contains step.name replay.names then throw (.listenerExists step.name)
    let selection ← selectionOf step
    let path ← ofData (Path.parse step.path)
    let kinds ← kindsOf step.kinds
    let (listener, events, replay) ←
      replay.after (replay.client.subscribe ⟨path, selection⟩ kinds)
    return (events, { replay with names := Sorted.insert step.name listener replay.names })
  | .unlisten name => do
    match Sorted.find? name replay.names with
    | none => throw (.unknownListener name)
    | some listener =>
      let (_, events, replay) ← replay.after (replay.client.unsubscribe listener)
      return (events, { replay with names := Sorted.erase name replay.names })
  | .set source document => do
    let node ← ofData (Node.ofJson document)
    let (_, events, replay) ← replay.after (replay.client.set source node)
    return (events, replay)
  | .update source children => do
    let writes ← writesOf children
    let (_, events, replay) ← replay.after (replay.client.update source writes)
    return (events, replay)
  | .server message => do
    let (_, events, replay) ← replay.after (replay.client.applyServer message)
    return (events, replay)

/-- Takes the step of a line and records its events. Blank lines are no steps. -/
def takeLine (replay : Replay) (line : Nat) (text : String) : Except StepFault Replay :=
  if Text.isBlankLine text then .ok replay
  else
    match Step.ofLine? text with
    | none => .error .unreadable
    | some step => do
      let (events, replay) ← replay.take step
      let records := events.map fun event => ⟨line, replay.nameOf event.listener, event⟩
      return { replay with records := replay.records ++ records }

/-- Takes lines one after the other, the first one having the given number. -/
def takeLines (replay : Replay) (number : Nat) : List String → Except ScriptError Replay
  | [] => .ok replay
  | text :: rest =>
    match replay.takeLine number text with
    | .ok replay => replay.takeLines (number + 1) rest
    | .error fault => .error ⟨number, fault⟩

def run (script : String) : Except ScriptError Replay :=
  ({} : Replay).takeLines 1 (Text.lines script)

end Replay

end Replica
