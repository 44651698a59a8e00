import Replica.Client.Message
import Replica.Engine.Basic

/-!
# The client

The client is the side of the engine that applications see. It numbers listeners and writes,
turns messages into operations, and hands every event to its listener in the order of delivery.
-/

namespace Replica

/-- Why a message is no operation. -/
inductive PayloadFault where
  | unreadable
  | data (error : DataError)
  deriving DecidableEq, Repr

/-- Why the client refuses a call, or ends a listener. -/
inductive ClientError where
  | engine (error : SyncError)
  | data (error : DataError)
  | payload (fault : PayloadFault)
  | unknownListener (listener : ListenerId)
  | revoked (code : RevocationCode) (path : String)
  deriving DecidableEq, Repr

def PayloadFault.message : PayloadFault → String
  | .unreadable => "not an operation"
  | .data error => error.message

def ClientError.message : ClientError → String
  | .engine error => "engine error: " ++ error.message
  | .data error => "snapshot error: " ++ error.message
  | .payload fault => "malformed payload: " ++ fault.message
  | .unknownListener listener => "unknown listener " ++ listenerText listener
  | .revoked code path => "listen at " ++ path ++ " revoked: " ++ code.reason

/-- What the client knows of a listener. -/
structure Listener where
  query : Query
  /-- The label under which the application wants to hear that the server ended the listener. -/
  onCancel? : Option String := none

/-- A listener that the server ended, by the label under which it wants to hear of that. -/
structure Cancellation where
  label : String
  error : ClientError

structure ClientConfig where
  engine : Config
  /-- Whether the application wants a listener that fails kept from stopping the others. -/
  guardListeners : Bool := true

/-- The client: the engine, the listeners, and the next numbers to give out. -/
structure Client where
  config : ClientConfig
  engine : Engine
  listeners : List (ListenerId × Listener) := []
  /-- Listeners never run out of numbers here. Where numbers have 64 bits, this holds of the first
  `2 ^ 64 - 1` subscriptions. -/
  nextListener : ListenerId := 1
  /-- Writes run out of numbers after `Client.lastWrite`. -/
  nextWrite : WriteId := 1

/-- What a call led to: its answer, the events handed to listeners, the listeners told of their
end, and the client after it. -/
structure Outcome (α : Type) where
  result : Except ClientError α
  delivered : List Event := []
  cancelled : List Cancellation := []
  client : Client

namespace Client

/-- The largest number that a write may have. -/
def lastWrite : WriteId := UInt64.size - 1

def create (config : ClientConfig) : Client :=
  { config := config, engine := .create config.engine }

/-- The events whose listeners the client holds. -/
def deliverable (client : Client) (events : List Event) : List Event :=
  events.filter fun event => Sorted.contains event.listener client.listeners

/-- The outcome of a call that changed nothing. -/
def refuse {α : Type} (client : Client) (error : ClientError) : Outcome α :=
  { result := .error error, client := client }

/-- The outcome of a call to the engine: on success, the events are handed to their listeners. -/
def settle {α : Type} (client : Client) (reply : Reply (List Event))
    (answer : List Event → α) : Outcome α :=
  let after := { client with engine := reply.engine }
  match reply.result with
  | .ok events =>
    { result := .ok (answer events), delivered := after.deliverable events, client := after }
  | .error error => { result := .error (.engine error), client := after }

/-! ## Listeners -/

/-- Registers a listener. It learns the data known already before the call returns. -/
def subscribe (client : Client) (query : Query) (kinds : List ChangeKind) :
    Outcome ListenerId :=
  let id := client.nextListener
  let listening :=
    { client with
      nextListener := id + 1
      listeners := Sorted.insert id { query := query } client.listeners }
  let reply := client.engine.register query ⟨id, kinds⟩
  match reply.result with
  | .ok _ => listening.settle reply fun _ => id
  | .error _ => { client with nextListener := id + 1 }.settle reply fun _ => id

/-- Sets the label under which a listener hears of its end. -/
def onCancel (client : Client) (listener : ListenerId) (label : String) : Outcome Unit :=
  match Sorted.find? listener client.listeners with
  | none => client.refuse (.unknownListener listener)
  | some entry =>
    let marked := { entry with onCancel? := some label }
    { result := .ok ()
      client := { client with listeners := Sorted.insert listener marked client.listeners } }

def unsubscribe (client : Client) (listener : ListenerId) : Outcome Unit :=
  match Sorted.find? listener client.listeners with
  | none => client.refuse (.unknownListener listener)
  | some entry =>
    let (_, engine) := client.engine.unregister entry.query listener
    { result := .ok ()
      client :=
        { client with engine := engine, listeners := Sorted.erase listener client.listeners } }

/-! ## Local writes -/

/-- Gives out a number for a write. The last number is given out again and again. -/
def allocate (client : Client) : WriteId × Client :=
  (client.nextWrite, { client with nextWrite := min (client.nextWrite + 1) lastWrite })

/-- Writes a node at a location, and returns the number of the write. -/
def set (client : Client) (source : String) (node : Node) : Outcome WriteId :=
  match Path.parse source with
  | .error error => client.refuse (.data error)
  | .ok path =>
    let (id, client) := client.allocate
    client.settle (client.engine.userOverwrite path node id true) fun _ => id

def update (client : Client) (source : String) (writes : List (Path × Node)) :
    Outcome WriteId :=
  match Path.parse source with
  | .error error => client.refuse (.data error)
  | .ok path =>
    let (id, client) := client.allocate
    client.settle (client.engine.userMerge path (.ofWrites writes) id) fun _ => id

/-- A refused path or data inside a message. -/
def decoded {α : Type} (result : Except DataError α) : Except ClientError α :=
  result.mapError fun error => .payload (.data error)

/-- The writes of a message, in the order of their locations' texts. -/
def decodeChildren : List (String × Json) → Except DataError (List (Path × Node))
  | [] => .ok []
  | (source, data) :: rest => do
    let path ← Path.parse source
    let node ← Node.ofJson data
    let others ← decodeChildren rest
    return (path, node) :: others

def decodeOverwrite (source : String) (data : Json) : Except ClientError (Path × Node) := do
  let path ← decoded (Path.parse source)
  let node ← decoded (Node.ofJson data)
  return (path, node)

def decodeMerge (source : String) (children : List (String × Json)) :
    Except ClientError (Path × Overlay) := do
  let path ← decoded (Path.parse source)
  let writes ← decoded (decodeChildren children)
  return (path, .ofWrites writes)

/-- Calls the engine with what a message holds, if that can be decoded. -/
def attempt {α : Type} (client : Client) (argument : Except ClientError α)
    (call : α → Reply (List Event)) : Outcome (List Event) :=
  match argument with
  | .error error => client.refuse error
  | .ok value => client.settle (call value) id

/-- Sees to it that later writes get numbers above the given one. -/
def skipWrite (client : Client) (write : WriteId) : Client :=
  { client with nextWrite := max client.nextWrite (min (write + 1) lastWrite) }

/-- Makes a local write that brings its own number. -/
def applyUser (client : Client) (message : UserMessage) : Outcome (List Event) :=
  let outcome :=
    match message with
    | .overwrite write source data =>
      client.attempt (decodeOverwrite source data) fun (path, node) =>
        client.engine.userOverwrite path node write true
    | .merge write source children =>
      client.attempt (decodeMerge source children) fun (path, nodes) =>
        client.engine.userMerge path nodes write
  match outcome.result with
  | .ok _ => { outcome with client := outcome.client.skipWrite message.write }
  | .error _ => outcome

/-! ## Messages of the server -/

/-- Ends listeners. Those with a label hear of it. -/
def cancelAll (error : ClientError) :
    List ListenerId → List (ListenerId × Listener) →
      List Cancellation × List (ListenerId × Listener)
  | [], listeners => ([], listeners)
  | id :: rest, listeners =>
    let told : List Cancellation :=
      match (Sorted.find? id listeners).bind (·.onCancel?) with
      | some label => [⟨label, error⟩]
      | none => []
    let (others, left) := cancelAll error rest (Sorted.erase id listeners)
    (told ++ others, left)

/-- Ends every listener at or below a location. -/
def revoke (client : Client) (source : String) (code : RevocationCode) :
    Outcome (List Event) :=
  match decoded (Path.parse source) with
  | .error error => client.refuse error
  | .ok path =>
    let (revoked, engine) := client.engine.revoke path
    let (told, left) :=
      cancelAll (.revoked code source) (revoked.flatMap (·.2)) client.listeners
    { result := .ok []
      cancelled := told
      client := { client with engine := engine, listeners := left } }

def applyServer (client : Client) : ServerMessage → Outcome (List Event)
  | .overwrite source data =>
    client.attempt (decodeOverwrite source data) fun (path, node) =>
      client.engine.serverOverwrite path node
  | .merge source children =>
    client.attempt (decodeMerge source children) fun (path, nodes) =>
      client.engine.serverMerge path nodes
  | .acknowledge write rejected => client.settle (client.engine.acknowledge write rejected) id
  | .listenComplete source =>
    client.attempt (decoded (Path.parse source)) client.engine.listenComplete
  | .listenRevoked source code => client.revoke source code

def debugText (client : Client) : String :=
  "Client \x7b session: " ++ Text.quoted client.config.engine.session ++ ", listeners: " ++
    toString client.listeners.length ++ ", next_write: " ++ toString client.nextWrite ++ " \x7d"

end Client

end Replica
