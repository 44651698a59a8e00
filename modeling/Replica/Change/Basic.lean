import Replica.Query

/-!
# Changes and events

A change is one difference between two snapshots of a view, an event is a change as told to one
listener.
-/

namespace Replica

/-- The kinds of changes and events, in the order of delivery. -/
inductive ChangeKind where
  | removed
  | added
  | moved
  | changed
  | value
  deriving DecidableEq, Repr

namespace ChangeKind

def all : List ChangeKind := [.removed, .added, .moved, .changed, .value]

/-- The kinds that concern single children. -/
def ofChildren : List ChangeKind := [.removed, .added, .moved, .changed]

/-- The name by which listeners ask for a kind. -/
def name : ChangeKind → String
  | .removed => "child_removed"
  | .added => "child_added"
  | .moved => "child_moved"
  | .changed => "child_changed"
  | .value => "value"

/-- The name of a kind in error messages. -/
def title : ChangeKind → String
  | .removed => "ChildRemoved"
  | .added => "ChildAdded"
  | .moved => "ChildMoved"
  | .changed => "ChildChanged"
  | .value => "Value"

def ofName? (name : String) : Option ChangeKind :=
  all.find? fun kind => kind.name == name

end ChangeKind

/-- One difference between two snapshots of a view. -/
inductive Change where
  | value (node : Node)
  | added (key : Key) (node : Node)
  | removed (key : Key) (old : Node)
  | changed (key : Key) (node old : Node)
  /-- A child may stand at another position. -/
  | moved (key : Key) (node : Node)

namespace Change

def kind : Change → ChangeKind
  | .value _ => .value
  | .added _ _ => .added
  | .removed _ _ => .removed
  | .changed _ _ _ => .changed
  | .moved _ _ => .moved

def key? : Change → Option Key
  | .value _ => none
  | .added key _ => some key
  | .removed key _ => some key
  | .changed key _ _ => some key
  | .moved key _ => some key

/-- The node that an event for the change carries; for a removal the child that was removed. -/
def node : Change → Node
  | .value node => node
  | .added _ node => node
  | .removed _ old => old
  | .changed _ node _ => node
  | .moved _ node => node

def old? : Change → Option Node
  | .removed _ old => some old
  | .changed _ _ old => some old
  | _ => none

end Change

/-- The number by which the application names a listener. -/
abbrev ListenerId := Nat

/-- A change as told to one listener. -/
structure Event where
  kind : ChangeKind
  listener : ListenerId
  path : Path
  key? : Option Key
  node : Node
  /-- The key of the child before it in the order of the query. -/
  previous? : Option Key

def listenerText (listener : ListenerId) : String :=
  "listener:" ++ toString listener

def Event.display (event : Event) : String :=
  listenerText event.listener ++ " " ++ event.kind.name ++ " " ++ Path.text event.path ++
    ((event.key?.map fun key => " key=" ++ key.text).getD "") ++ " " ++ event.node.display ++
    ((event.previous?.map fun key => " prev=" ++ key.text).getD "")

/-- A short text of an event: its kind and the key of the child concerned. -/
def Event.summary (event : Event) : String :=
  match event.key? with
  | some key => event.kind.name ++ " " ++ key.text
  | none => event.kind.name

end Replica
