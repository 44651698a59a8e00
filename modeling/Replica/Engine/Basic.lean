import Replica.Engine.Counters
import Replica.Site

/-!
# The engine

The engine holds every site and the pending writes. It routes each operation to the views it
concerns, and returns the events that they raise.

A failed call changes nothing but the counters: the pending writes and the caches of all views
stay as they were.
-/

namespace Replica

structure Config where
  session : String
  /-- Whether the application wants every operation noted. The engine keeps no log itself. -/
  logOperations : Bool := false
  maxPending : Nat := 10000

/-- What the engine asks of the connection to the server. -/
inductive Signal where
  /-- The first listener of a query has come: send its data. -/
  | start (query : Query)
  /-- The last listener of a query has left: its data is no longer needed. -/
  | stop (query : Query)

/-- The queries that are started and not stopped, in the order of their starts. -/
def Signal.active (signals : List Signal) : List Query :=
  signals.foldl
    (fun queries signal =>
      match signal with
      | .start query => queries ++ [query]
      | .stop query => queries.filter fun other => !other.same query) []

/-- The sites by location. -/
abbrev Sites := List (Path × Site)

namespace Sites

/-- The server's complete data at a location, from a site at or above it, or only from one
strictly above it. -/
def serverNode? (sites : Sites) (path : Path) (strictly : Bool) : Option Node :=
  sites.findSome? fun (above, site) =>
    if strictly && above == path then none
    else (Path.below? path above).bind site.serverNode?

/-- What the sites know of the server's data at a location: complete data from a site at or above
it, or else the children that sites right below it have complete. -/
def serverCache (sites : Sites) (path : Path) : Cache :=
  match sites.serverNode? path false with
  | some node => ⟨node, true, false⟩
  | none =>
    let children := sites.foldl
      (fun all (below, site) =>
        match Path.below? below path, site.serverNode? [] with
        | some [key], some node => all.setChild key node
        | _, _ => all) .empty
    ⟨children, false, false⟩

def view? (sites : Sites) (query : Query) : Option View :=
  (Sorted.find? query.path sites).bind fun site => site.view? query.selection

/-- Whether an operation concerns a site. The end of the initial data concerns the sites at and
below its location, all else the sites above as well. -/
def concerns (operation : Operation) (path : Path) : Bool :=
  match operation with
  | .listenComplete target => Path.contains target path
  | _ => Path.contains operation.path path || Path.contains path operation.path

/-- Orders locations from the bottom up: everything below a location before it, and unrelated
locations by their keys. -/
def bottomUp (a b : Path) : Ordering :=
  if a = b then .eq
  else if Path.contains a b then .gt
  else if Path.contains b a then .lt
  else compare a b

/-- The sites after some of them took an operation, and the events of each. -/
structure Routed where
  sites : Sites
  raised : List (Path × List Event) := []

/-- Lets one site take an operation. The site sees what the sites above it know by now. -/
def step (operation : Operation) (pending : Pending) (routed : Routed) (path : Path) :
    Except SyncError Routed :=
  match operation.relativeTo? path, Sorted.find? path routed.sites with
  | some relative, some site => do
    let ancestor? := routed.sites.serverNode? path true
    let (events, site) ← site.apply relative (pending.at path) ancestor?
    return ⟨Sorted.insert path site routed.sites, routed.raised ++ [(path, events)]⟩
  | _, _ => .ok routed

/-- Routes an operation. Sites take it from the top down, so that those below see the new data
of the server, and their events are delivered from the bottom up. -/
def route (sites : Sites) (operation : Operation) (pending : Pending) :
    Except SyncError (List Event × Sites) := do
  let targets := (sites.map (·.1)).filter (concerns operation)
  let routed ← targets.foldlM (step operation pending) ⟨sites, []⟩
  let sorted := routed.raised.mergeSort fun a b => bottomUp a.1 b.1 != .gt
  return (sorted.flatMap (·.2), routed.sites)

end Sites

/-- The engine: all sites, the pending writes, and what was counted and signalled so far. -/
structure Engine where
  config : Config
  pending : Pending
  sites : Sites := []
  counters : Counters := {}
  /-- The signals to the connection, oldest first. -/
  signals : List Signal := []

structure Reply (α : Type) where
  result : Except SyncError α
  engine : Engine

namespace Engine

def create (config : Config) : Engine :=
  { config := config, pending := { limit? := some config.maxPending } }

def fail {α : Type} (engine : Engine) (error : SyncError) : Reply α :=
  ⟨.error error, { engine with counters := engine.counters.countError }⟩

def succeed (engine : Engine) (events : List Event) : Reply (List Event) :=
  ⟨.ok events, { engine with counters := engine.counters.countEvents events.length }⟩

/-- Routes an operation under the pending writes after it. On failure the engine keeps the
pending writes that it had. -/
def run (engine : Engine) (operation : Operation) (pending : Pending) : Reply (List Event) :=
  match engine.sites.route operation pending with
  | .ok (events, sites) => { engine with sites := sites, pending := pending }.succeed events
  | .error error => engine.fail error

/-! ## Local writes -/

/-- Makes a local write of one node. A hidden write raises no events until it is acknowledged. -/
def userOverwrite (engine : Engine) (path : Path) (node : Node) (id : WriteId) (visible : Bool) :
    Reply (List Event) :=
  match engine.pending.addOverwrite id path node visible with
  | .error error => engine.fail error
  | .ok pending =>
    let counted := { engine with counters := engine.counters.countUserWrite }
    if visible then counted.run (.overwrite .user path node) pending
    else { counted with pending := pending }.succeed []

def userMerge (engine : Engine) (path : Path) (nodes : Overlay) (id : WriteId) :
    Reply (List Event) :=
  match engine.pending.addMerge id path nodes with
  | .error error => engine.fail error
  | .ok pending =>
    let counted := { engine with counters := engine.counters.countUserWrite }
    counted.run (.merge .user path nodes) pending

/-- Takes the server's answer to a local write. The data of an accepted write becomes data of
the server; a rejected hidden write leaves no trace. -/
def acknowledge (engine : Engine) (id : WriteId) (rejected : Bool) : Reply (List Event) :=
  match engine.pending.remove id with
  | .error error => engine.fail error
  | .ok (write, pending) =>
    let counted := { engine with counters := engine.counters.countAnswer rejected }
    if !write.visible && rejected then { counted with pending := pending }.succeed []
    else counted.run (.acknowledge write.path rejected write.overlay) pending

/-! ## Data of the server -/

def serverOperation (engine : Engine) (operation : Operation) : Reply (List Event) :=
  { engine with counters := engine.counters.countServerOperation }.run operation engine.pending

def serverOverwrite (engine : Engine) (path : Path) (node : Node) : Reply (List Event) :=
  engine.serverOperation (.overwrite .server path node)

def serverMerge (engine : Engine) (path : Path) (nodes : Overlay) : Reply (List Event) :=
  engine.serverOperation (.merge .server path nodes)

/-- Takes the notice that all initial data for a location was sent. -/
def listenComplete (engine : Engine) (path : Path) : Reply (List Event) :=
  engine.serverOperation (.listenComplete path)

/-! ## Listeners -/

/-- Attaches a listener to a query and returns the events by which it learns the data known
already. The first listener of a query asks the server for its data. -/
def register (engine : Engine) (query : Query) (registration : Registration) :
    Reply (List Event) :=
  match query.selection.validate with
  | .error error => ⟨.error error, engine⟩
  | .ok () =>
    let site := (Sorted.find? query.path engine.sites).getD []
    let (events, created, site) :=
      site.register query registration (engine.sites.serverCache query.path)
        (engine.pending.at query.path)
    let attached := { engine with sites := Sorted.insert query.path site engine.sites }
    if created then
      { attached with
        counters := attached.counters.countCreated
        signals := attached.signals ++ [Signal.start query] }.succeed events
    else attached.succeed events

/-- Puts back a site from which views were removed, and tells the connection. A site without
views is dropped. -/
def release (engine : Engine) (path : Path) (site : Site) (ended : List Query) : Engine :=
  { engine with
    sites :=
      if site.isEmpty then Sorted.erase path engine.sites
      else Sorted.insert path site engine.sites
    counters := engine.counters.countRemoved ended.length
    signals := engine.signals ++ ended.map Signal.stop }

/-- Detaches a listener from one query of a site, or from all of them, and says whether it was
attached. -/
def detach (engine : Engine) (path : Path) (identifier? : Option String)
    (listener : ListenerId) : Bool × Engine :=
  match Sorted.find? path engine.sites with
  | none => (false, engine)
  | some site =>
    let (ended, found, site) := site.unregister identifier? listener
    (found, engine.release path site ended)

def unregister (engine : Engine) (query : Query) (listener : ListenerId) : Bool × Engine :=
  engine.detach query.path (some query.identifier) listener

/-- Detaches a listener from every query, and says whether it was attached to any. -/
def removeListener (engine : Engine) (listener : ListenerId) : Bool × Engine :=
  (engine.sites.map (·.1)).foldl
    (fun (found, engine) path =>
      let (here, engine) := engine.detach path none listener
      (found || here, engine)) (false, engine)

/-- Drops every view at or below a location without a word to the connection, and returns each
query with its listeners. -/
def revoke (engine : Engine) (path : Path) : List (Query × List ListenerId) × Engine :=
  let (dropped, others) := engine.sites.partition fun (below, _) => Path.contains path below
  let revoked := dropped.flatMap fun (_, site) => site.listeners
  (revoked,
    { engine with sites := others, counters := engine.counters.countRemoved revoked.length })

/-! ## Answers -/

def stage? (engine : Engine) (query : Query) : Option Stage :=
  (engine.sites.view? query).map View.stage

/-- The data at a location with the visible writes over it, as far as it is known. -/
def node? (engine : Engine) (path : Path) : Option Node :=
  engine.pending.node? path (engine.sites.serverNode? path false) false

def latest? (engine : Engine) (query : Query) : Option Node :=
  match engine.sites.view? query with
  | some view => view.caches.visible.complete?
  | none => (engine.node? query.path).map query.selection.filter.select

end Engine

end Replica
