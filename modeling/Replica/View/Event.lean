import Replica.Change.Ledger

/-!
# Events of a view

The changes of a view become events: kind by kind in the order of delivery, and within a kind in
the order of the query. Every change becomes one event for each registration that wants its kind,
in the order of registration. A child that changed may also have moved.
-/

namespace Replica

/-- A listener of a view and the kinds of events it wants. -/
structure Registration where
  id : ListenerId
  kinds : List ChangeKind

namespace Registration

def all (id : ListenerId) : Registration := ⟨id, ChangeKind.all⟩

def wants (registration : Registration) (kind : ChangeKind) : Bool :=
  registration.kinds.contains kind

end Registration

namespace Change

/-- Whether a change says nothing new: other data that is the same data. -/
def isVoid : Change → Bool
  | .changed _ node old => node.same old
  | _ => false

/-- The move that comes with a change of data, if the child may stand at another position. -/
def move? (index : Index) : Change → Option Change
  | .changed key node old => if index.moves old node then some (.moved key node) else none
  | _ => none

/-- Whether a change comes no later than another one of its kind. -/
def atMost (index : Index) (a b : Change) : Bool :=
  match a.key?, b.key? with
  | some key, some other => index.atMost (key, a.node) (other, b.node)
  | _, _ => true

/-- The changes that are told, with the moves that come with them, in the order of delivery. -/
def arrange (index : Index) (changes : List Change) : List Change :=
  let told := changes.filter (!·.isVoid)
  let all := told ++ told.filterMap (move? index)
  ChangeKind.all.flatMap fun kind => (all.filter (·.kind == kind)).mergeSort (atMost index)

/-- The sibling before the child concerned, where an event tells it. -/
def previous? (index : Index) (snap : Node) (change : Change) : Option Key :=
  match change with
  | .added key _ => snap.predecessor? key index
  | .changed key _ _ => snap.predecessor? key index
  | .moved key _ => snap.predecessor? key index
  | .removed _ _ => none
  | .value _ => none

def events (path : Path) (index : Index) (snap : Node) (registrations : List Registration)
    (change : Change) : List Event :=
  (registrations.filter fun registration => registration.wants change.kind).map
    fun registration =>
      { kind := change.kind
        listener := registration.id
        path := path
        key? := change.key?
        node := change.node
        previous? := change.previous? index snap }

end Change

/-- The events of the changes that led to a snapshot. -/
def Event.ofChanges (path : Path) (index : Index) (changes : List Change) (snap : Node)
    (registrations : List Registration) : List Event :=
  (Change.arrange index changes).flatMap (Change.events path index snap registrations)

end Replica
