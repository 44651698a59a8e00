import Replica.Client.Basic

/-!
# JSON views of values

Tools look at the state of an engine through JSON: nodes with their priorities, locations and
keys as texts, and null for whatever is absent.
-/

namespace Replica

namespace Json

/-- An array of values written in one way. -/
def list {α : Type} (write : α → Json) (values : List α) : Json :=
  .array (values.map write)

/-- A value written in one way, or null. -/
def optional {α : Type} (write : α → Json) (value? : Option α) : Json :=
  (value?.map write).getD .null

def natural (n : Nat) : Json := .integer n

end Json

def Key.toJson (key : Key) : Json := .string key.text

def Path.toJson (path : Path) : Json := .string path.text

def Node.inspect (node : Node) : Json := node.toJson true

/-- A node that may be unknown. An empty node that is known differs from an unknown one. -/
def Json.known (node? : Option Node) : Json :=
  Json.optional (fun node => Json.ofMembers [("node", node.inspect)]) node?

def Json.sibling (sibling : Key × Node) : Json :=
  Json.ofMembers [("name", sibling.1.toJson), ("node", sibling.2.inspect)]

def Bound.toJson (bound : Bound) : Json :=
  Json.ofMembers [("value", bound.value.inspect), ("key", .optional Key.toJson bound.key?)]

def Json.listeners (listeners : List (Query × List ListenerId)) : Json :=
  .list (fun (query, ids) => .array [.string query.display, .list .natural ids]) listeners

def Path.inspect (path : Path) : Json :=
  Json.ofMembers [
    ("text", path.toJson), ("debug", .string ("Path(" ++ path.text ++ ")")),
    ("len", .natural path.length), ("is_empty", .bool path.isEmpty),
    ("segments", .list Key.toJson path), ("front", .optional Key.toJson path.head?),
    ("back", .optional Key.toJson path.getLast?), ("pop_front", Path.toJson path.tail),
    ("parent", .optional Path.toJson path.parent?)]

def Scalar.inspect (scalar : Scalar) : Json :=
  let typed (bool : Json) (number : Bool) (text : Json) : Json :=
    Json.ofMembers [("display", .string scalar.display), ("bool", bool),
      ("is_number", .bool number), ("text", text)]
  match scalar with
  | .bool value => typed (.bool value) false .null
  | .number _ => typed .null true .null
  | .text value => typed .null false (.string value)

def Node.inspectFully (node : Node) : Json :=
  Json.ofMembers [
    ("export", node.inspect), ("data", node.toJson false), ("display", .string node.display),
    ("debug", .string node.debugText), ("is_empty", .bool node.isEmpty),
    ("is_leaf", .bool node.isLeaf), ("value", .optional Scalar.inspect node.value?),
    ("priority", node.priorityNode.inspect), ("num_children", .natural node.children.length),
    ("children", .list (fun (key, child) => .array [key.toJson, child.inspect]) node.children)]

/-- The writes of an overlay in the order of their locations. -/
def Overlay.toJson (overlay : Overlay) : Json :=
  .list (fun (path, node) => .array [Path.toJson path, node.inspect]) overlay.writes

def Change.toJson (change : Change) : Json :=
  Json.ofMembers [
    ("kind", .string change.kind.name), ("key", .optional Key.toJson change.key?),
    ("node", change.node.inspect), ("old", .optional Node.inspect change.old?)]

def Event.toJson (event : Event) : Json :=
  Json.ofMembers [
    ("kind", .string event.kind.name), ("listener", .natural event.listener),
    ("path", event.path.toJson), ("key", .optional Key.toJson event.key?),
    ("node", event.node.inspect), ("prev", .optional Key.toJson event.previous?)]

def Cache.toJson (cache : Cache) : Json :=
  Json.ofMembers [
    ("node", cache.node.inspect), ("complete", .bool cache.complete),
    ("filtered", .bool cache.filtered)]

def Caches.toJson (caches : Caches) : Json :=
  Json.ofMembers [("event", caches.visible.toJson), ("server", caches.server.toJson)]

def Source.name : Source → String
  | .user => "user"
  | .server => "server"

def Operation.toJson (operation : Operation) : Json :=
  let rest : List (String × Json) :=
    match operation with
    | .overwrite _ _ node => [("type", .string "overwrite"), ("data", node.inspect)]
    | .merge _ _ nodes => [("type", .string "merge"), ("children", nodes.toJson)]
    | .acknowledge _ rejected nodes =>
      [("type", .string "ack"), ("revert", .bool rejected), ("write", nodes.toJson)]
    | .listenComplete _ => [("type", .string "listen_complete")]
  Json.ofMembers <|
    ("path", operation.path.toJson) :: ("source", .string operation.source.name) :: rest

def Write.toJson (write : Write) : Json :=
  let kind :=
    match write.payload with
    | .overwrite _ => "overwrite"
    | .merge _ => "merge"
  Json.ofMembers [
    ("id", .natural write.id), ("path", write.path.toJson), ("kind", .string kind),
    ("visible", .bool write.visible), ("writes", write.overlay.toJson)]

def Pending.toJson (pending : Pending) : Json :=
  Json.ofMembers [
    ("pending", .list (fun write => .natural write.id) pending.writes),
    ("visible", pending.overlay.toJson), ("last", .optional .natural pending.last?)]

def View.toJson (view : View) : Json :=
  Json.ofMembers [
    ("query", .string view.query.display), ("state", .string view.stage.name),
    ("cache", view.caches.toJson),
    ("listeners", .list (fun listener => .natural listener.id) view.registrations)]

def Counters.toJson (counters : Counters) : Json :=
  Json.ofMembers [
    ("server_operations", .natural counters.serverOperations),
    ("user_writes", .natural counters.userWrites), ("acks", .natural counters.acks),
    ("reverts", .natural counters.reverts), ("events_raised", .natural counters.eventsRaised),
    ("views_created", .natural counters.viewsCreated),
    ("views_removed", .natural counters.viewsRemoved), ("errors", .natural counters.errors)]

def Config.toJson (config : Config) : Json :=
  .array [.string config.session, .bool config.logOperations, .natural config.maxPending]

def ClientConfig.toJson (config : ClientConfig) : Json :=
  .array [.string config.engine.session, .natural config.engine.maxPending,
    .bool config.guardListeners]

def Signal.toJson : Signal → Json
  | .start query => .array [.string "start", .string query.display]
  | .stop query => .array [.string "stop", .string query.display]

end Replica
