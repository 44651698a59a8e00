import Replica.Change.Ledger

/-!
# Filters

A filter applies a selection to snapshots. It takes either a whole new snapshot or one child at a
time, and says beside the new snapshot which children it changed, in the order in which it
changed them.
-/

namespace Replica

/-- An order with optional ends. -/
structure Range where
  index : Index
  lowest? : Option (Key × Node)
  highest? : Option (Key × Node)

namespace Range

/-- Whether a sibling lies in the range, ends included. -/
def contains (range : Range) (sibling : Key × Node) : Bool :=
  range.lowest?.all (range.index.atMost · sibling) &&
    range.highest?.all (range.index.atMost sibling ·)

/-- A child as the range lets it through: itself or nothing. -/
def clip (range : Range) (key : Key) (child : Node) : Node :=
  if range.contains (key, child) then child else .empty

end Range

/-- A range of which only so many siblings at one end are kept. -/
structure Window where
  range : Range
  limit : Limit

namespace Window

/-- Orders siblings from the kept end of the range. -/
def order (window : Window) (a b : Key × Node) : Ordering :=
  match window.limit with
  | .first _ => window.range.index.order a b
  | .last _ => window.range.index.order b a

/-- The children of a node, those at the kept end first. -/
def arrange (window : Window) (node : Node) : List (Key × Node) :=
  match window.limit with
  | .first _ => node.sorted window.range.index
  | .last _ => (node.sorted window.range.index).reverse

def kept (window : Window) (node : Node) : List (Key × Node) :=
  ((window.arrange node).filter window.range.contains).take window.limit.count

end Window

/-- What a selection does to snapshots. -/
inductive Filter where
  | everything (order : Index)
  | within (range : Range)
  | limited (window : Window)

def Selection.range (selection : Selection) : Range :=
  ⟨selection.index, selection.lowest?, selection.highest?⟩

def Selection.filter (selection : Selection) : Filter :=
  match selection.limit? with
  | some limit => .limited ⟨selection.range, limit⟩
  | none => if selection.keepsAll then .everything selection.index else .within selection.range

/-- A snapshot after a change, and the changes of its children in the order they were made. -/
structure Edit where
  node : Node
  changes : List Change

namespace Edit

def unchanged (node : Node) : Edit := ⟨node, []⟩

/-- Replaces one child, whatever it holds. -/
def ofChild (snap : Node) (key : Key) (child : Node) : Edit :=
  let old := snap.child key
  if old.same child then unchanged snap
  else
    let changes : List Change :=
      if child.isEmpty then (if snap.hasChild key then [.removed key old] else [])
      else if old.isEmpty then [.added key child]
      else [.changed key child old]
    ⟨if snap.isLeaf && child.isEmpty then snap else snap.setChild key child, changes⟩

/-- The children that a new snapshot no longer has. -/
def removals (old new : Node) : List Change :=
  (old.children.filter fun (key, _) => !new.hasChild key).map fun (key, child) =>
    .removed key child

/-- The children that a new snapshot has and the old one had not, or not the same. -/
def arrivals (old new : Node) : List Change :=
  new.children.filterMap fun (key, child) =>
    let before := old.child key
    if before.isEmpty then some (.added key child)
    else if before.same child then none
    else some (.changed key child before)

def ofNode (old new : Node) : Edit :=
  ⟨new, removals old new ++ arrivals old new⟩

end Edit

namespace Window

/-- The first sibling behind the last one of the window that the window does not hold yet, and
that is not the child under the given key. -/
def next? (window : Window) (snap known : Node) (last : Key × Node) (key : Key) :
    Option (Key × Node) :=
  (window.arrange known).find? fun candidate =>
    window.order candidate last == .gt && candidate.1 != key && !snap.hasChild candidate.1

/-- Replaces a child of a full window. A child that comes before the last one pushes that one
out. A child that leaves, or falls behind the first sibling outside, makes room for that
sibling, which is looked for among the known ones. -/
def shift (window : Window) (snap : Node) (key : Key) (child known : Node) : Edit :=
  match (window.arrange snap).getLast? with
  | none => .unchanged snap
  | some last =>
    if snap.hasChild key then
      let old := snap.child key
      let next? := window.next? snap known last key
      if !child.isEmpty && next?.all (fun next => window.order next (key, child) != .lt) then
        ⟨snap.setChild key child, [.changed key child old]⟩
      else
        let shrunk := snap.setChild key .empty
        match next?.filter window.range.contains with
        | some (name, node) => ⟨shrunk.setChild name node, [.removed key old, .added name node]⟩
        | none => ⟨shrunk, [.removed key old]⟩
    else if child.isEmpty then .unchanged snap
    else if window.order last (key, child) == .gt then
      ⟨(snap.setChild key child).setChild last.1 .empty,
        [.removed last.1 last.2, .added key child]⟩
    else .unchanged snap

end Window

namespace Filter

def index : Filter → Index
  | .everything order => order
  | .within range => range.index
  | .limited window => window.range.index

/-- Whether the filter may leave children out. -/
def drops : Filter → Bool
  | .everything _ => false
  | .within _ | .limited _ => true

/-- What the filter keeps of a whole snapshot. A filter that may leave children out keeps no
leaf and no priority of the snapshot itself. -/
def select (filter : Filter) (node : Node) : Node :=
  match filter with
  | .everything _ => node
  | .within range => .ofSorted (node.children.filter range.contains) none
  | .limited window =>
    let names := (window.kept node).map (·.1)
    .ofSorted (node.children.filter fun (key, _) => names.contains key) none

def replace (filter : Filter) (old new : Node) : Edit :=
  .ofNode old (filter.select new)

/-- Replaces one child. The children of the known node may slide into a window. -/
def setChild (filter : Filter) (snap : Node) (key : Key) (child known : Node) : Edit :=
  match filter with
  | .everything _ => .ofChild snap key child
  | .within range => .ofChild snap key (range.clip key child)
  | .limited window =>
    let clipped := window.range.clip key child
    if (snap.child key).same clipped then .unchanged snap
    else if snap.children.length < window.limit.count then .ofChild snap key clipped
    else window.shift snap key clipped known

/-- Replaces the priority of the snapshot, which only the filter that keeps everything shows. -/
def setPriority (filter : Filter) (snap : Node) (priority : Option Priority) : Node :=
  match filter with
  | .everything _ => snap.setPriority priority
  | .within _ | .limited _ => snap

end Filter

end Replica
