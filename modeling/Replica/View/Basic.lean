import Replica.View.Event
import Replica.View.Update

/-!
# Views

A view is one query with its caches and its listeners. It is created from the server's data and
the pending writes known at that time, and it ends when its last listener leaves.
-/

namespace Replica

/-- The stages in the life of a view. -/
inductive Stage where
  /-- Created, without listeners. -/
  | uninitialized
  /-- With listeners, waiting for complete data of the server. -/
  | serverPending
  /-- With complete data of the server; the query keeps every child. -/
  | active
  /-- With complete data of the server; the query leaves children out. -/
  | filteredActive
  | tornDown
  deriving DecidableEq, Repr

def Stage.name : Stage → String
  | .uninitialized => "uninitialized"
  | .serverPending => "server-pending"
  | .active => "active"
  | .filteredActive => "filtered-active"
  | .tornDown => "torn-down"

/-- A query with its caches and listeners. -/
structure View where
  query : Query
  caches : Caches
  /-- The listeners in the order of registration. -/
  registrations : List Registration := []
  /-- Whether the last listener has left. -/
  tornDown : Bool := false

namespace View

def filter (view : View) : Filter :=
  view.query.selection.filter

/-- A view without listeners, from what the server sent so far, unfiltered, and the pending
writes. -/
def create (query : Query) (server : Cache) (vantage : Vantage) : View :=
  let filter := query.selection.filter
  let visible := filter.select (Caches.visibleNode server vantage)
  { query := query
    caches :=
      { visible := ⟨visible, server.complete || (vantage.shadow? []).isSome, filter.drops⟩
        server := ⟨filter.select server.node, server.complete, filter.drops⟩ } }

def isEmpty (view : View) : Bool :=
  view.registrations.isEmpty

def stage (view : View) : Stage :=
  if view.tornDown then .tornDown
  else if view.caches.server.complete then
    if view.filter.drops then .filteredActive else .active
  else if view.isEmpty then .uninitialized
  else .serverPending

/-- The events by which a new listener learns the complete visible data: every child as added,
and then the value. -/
def initialEvents (view : View) (registration : Registration) : List Event :=
  match view.caches.visible.complete? with
  | none => []
  | some snap =>
    let changes : List Change :=
      (snap.children.map fun (key, child) => .added key child) ++ [.value snap]
    Event.ofChanges view.query.path view.query.selection.index changes snap [registration]

def register (view : View) (registration : Registration) : List Event × View :=
  (view.initialEvents registration,
    { view with registrations := view.registrations ++ [registration] })

/-- Detaches a listener, and says whether it was attached. -/
def unregister (view : View) (listener : ListenerId) : Bool × View :=
  let others := view.registrations.filter (·.id != listener)
  let found := others.length != view.registrations.length
  (found,
    { view with registrations := others, tornDown := view.tornDown || (found && others.isEmpty) })

/-- Applies an operation whose location is relative to the view. -/
def apply (view : View) (operation : Operation) (vantage : Vantage) (ancestor? : Option Node) :
    Except SyncError (List Event × View) := do
  let update ← view.caches.apply view.filter operation vantage ancestor?
  let events := Event.ofChanges view.query.path view.query.selection.index update.changes
    update.caches.visible.node view.registrations
  return (events, { view with caches := update.caches })

/-- The server's complete data at a location below the view, if the view holds it. A view that
leaves children out can only answer for the children it holds. -/
def serverNode? (view : View) (path : Path) : Option Node :=
  match view.caches.server.complete? with
  | none => none
  | some server =>
    let holds :=
      view.query.selection.keepsAll ||
        path.head?.any fun key => !(server.child key).isEmpty
    if holds then some (server.descendant path) else none

end View

end Replica
