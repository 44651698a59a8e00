import Replica.SyncError

/-!
# Net changes

One operation may touch a child more than once. The ledger keeps, per child, the single change
from the state before the first touch to the state after the last one.
-/

namespace Replica

/-- The net change of every child touched, in key order. -/
abbrev Ledger := List (Key × Change)

namespace Ledger

/-- Two changes of one child in a row as one change, or as none when the child ends as it began.
Only changes that can follow each other have a sum. -/
def combine (key : Key) : Change → Change → Except SyncError (Option Change)
  | .removed _ old, .added _ node => .ok (some (.changed key node old))
  | .added _ _, .removed _ _ => .ok none
  | .changed _ _ old, .removed _ _ => .ok (some (.removed key old))
  | .added _ _, .changed _ node _ => .ok (some (.added key node))
  | .changed _ _ old, .changed _ node _ => .ok (some (.changed key node old))
  | tracked, incoming => .error (.transition key tracked.kind incoming.kind)

def enter (ledger : Ledger) (key : Key) (change : Change) : Except SyncError Ledger := do
  if key.isPriority then throw (.untrackable .priority)
  match Sorted.find? key ledger with
  | none => return Sorted.insert key change ledger
  | some tracked =>
    match ← combine key tracked change with
    | some net => return Sorted.insert key net ledger
    | none => return Sorted.erase key ledger

/-- Enters a change. Only appearance, disappearance and other data of a child are tracked. -/
def record (ledger : Ledger) : Change → Except SyncError Ledger
  | .value _ => .error (.untrackable .value)
  | .moved key _ => .error (.untrackable (.move key))
  | .added key node => ledger.enter key (.added key node)
  | .removed key old => ledger.enter key (.removed key old)
  | .changed key node old => ledger.enter key (.changed key node old)

/-- Enters changes one after the other up to the first that cannot be entered. The ledger keeps
those before it. -/
def track (ledger : Ledger) : List Change → Ledger × Option SyncError
  | [] => (ledger, none)
  | change :: rest =>
    match ledger.record change with
    | .ok next => next.track rest
    | .error error => (ledger, some error)

def recordAll (ledger : Ledger) (changes : List Change) : Except SyncError Ledger :=
  match ledger.track changes with
  | (net, none) => .ok net
  | (_, some error) => .error error

def changes (ledger : Ledger) : List Change :=
  ledger.map (·.2)

end Ledger

/-- The changes of one child that goes through the given states, an absent state being none. -/
def Change.ofStates (key : Key) : List (Option Int) → List Change
  | first :: second :: rest =>
    let node (value : Int) : Node :=
      ((Number.ofInt? value).map fun number => Node.ofScalar (.number number)).getD .empty
    let step : List Change :=
      match first, second with
      | none, some new => [.added key (node new)]
      | some old, none => [.removed key (node old)]
      | some old, some new => if old = new then [] else [.changed key (node new) (node old)]
      | none, none => []
    step ++ ofStates key (second :: rest)
  | _ => []

end Replica
