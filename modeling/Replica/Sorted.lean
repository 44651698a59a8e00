/-!
# Sorted association lists

A finite map is a list of entries in strictly ascending key order. The operations below keep
that order and read only the order of the keys.
-/

namespace Replica.Sorted

universe u v

variable {α : Type u} {β : Type v} [Ord α]

def find? (key : α) : List (α × β) → Option β
  | [] => none
  | (other, value) :: rest =>
    match compare key other with
    | .lt => none
    | .eq => some value
    | .gt => find? key rest

def contains (key : α) (entries : List (α × β)) : Bool :=
  (find? key entries).isSome

/-- Stores a value under a key, replacing the value that was there. -/
def insert (key : α) (value : β) : List (α × β) → List (α × β)
  | [] => [(key, value)]
  | (other, old) :: rest =>
    match compare key other with
    | .lt => (key, value) :: (other, old) :: rest
    | .eq => (key, value) :: rest
    | .gt => (other, old) :: insert key value rest

def erase (key : α) : List (α × β) → List (α × β)
  | [] => []
  | (other, value) :: rest =>
    match compare key other with
    | .lt => (other, value) :: rest
    | .eq => rest
    | .gt => (other, value) :: erase key rest

/-- The map that holds the given entries; of entries with one key the last one counts. -/
def ofList (entries : List (α × β)) : List (α × β) :=
  entries.foldl (fun map (key, value) => insert key value map) []

end Replica.Sorted
