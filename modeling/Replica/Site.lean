import Replica.View.Basic

/-!
# Sites

A site holds all views of one location, in the order of their query identifiers.
-/

namespace Replica

/-- The views of one location by query identifier. -/
abbrev Site := List (String × View)

namespace Site

def view? (site : Site) (selection : Selection) : Option View :=
  Sorted.find? selection.identifier site

/-- The server's complete data at a location below the site, from any view that holds it. -/
def serverNode? (site : Site) (path : Path) : Option Node :=
  site.findSome? fun (_, view) => view.serverNode? path

/-- Applies an operation to every view, and returns the events in the order of the views. -/
def apply (operation : Operation) (vantage : Vantage) (ancestor? : Option Node) :
    Site → Except SyncError (List Event × Site)
  | [] => .ok ([], [])
  | (identifier, view) :: rest => do
    let (events, view) ← view.apply operation vantage ancestor?
    let (others, rest) ← apply operation vantage ancestor? rest
    return (events ++ others, (identifier, view) :: rest)

/-- Attaches a listener to the view of a query, which is created if there is none. Returns the
initial events, whether the view was created, and the site. -/
def register (site : Site) (query : Query) (registration : Registration) (server : Cache)
    (vantage : Vantage) : List Event × Bool × Site :=
  let found? := Sorted.find? query.identifier site
  let (events, view) :=
    (found?.getD (View.create query server vantage)).register registration
  (events, found?.isNone, Sorted.insert query.identifier view site)

/-- Detaches a listener from the view of one query identifier, or from every view. Returns the
queries whose views ended, whether the listener was attached, and the site. -/
def unregister (identifier? : Option String) (listener : ListenerId) :
    Site → List Query × Bool × Site
  | [] => ([], false, [])
  | (identifier, view) :: rest =>
    let (ended, found, rest) := unregister identifier? listener rest
    if identifier?.all (· == identifier) then
      match view.unregister listener with
      | (true, view) =>
        if view.isEmpty then (view.query :: ended, true, rest)
        else (ended, true, (identifier, view) :: rest)
      | (false, view) => (ended, found, (identifier, view) :: rest)
    else (ended, found, (identifier, view) :: rest)

def listeners (site : Site) : List (Query × List ListenerId) :=
  site.map fun (_, view) => (view.query, view.registrations.map (·.id))

end Site

end Replica
