import Replica.DataError

/-!
# Paths

A path is the list of keys that leads from the root of the tree to a location. Paths are ordered
key by key, so a location comes before everything below it.
-/

namespace Replica

/-- A location in the tree; the empty path is the root. -/
abbrev Path := List Key

namespace Path

/-- Orders paths key by key, a path before its extensions. -/
def order : Path → Path → Ordering
  | [], [] => .eq
  | [], _ :: _ => .lt
  | _ :: _, [] => .gt
  | a :: as, b :: bs => (compare a b).then (order as bs)

instance : Ord Path := ⟨order⟩

/-- Whether a location is at or above another one. -/
def contains (path other : Path) : Bool :=
  path.isPrefixOf other

/-- What is left of a path below an ancestor, if the ancestor contains it. -/
def below? : (path ancestor : Path) → Option Path
  | path, [] => some path
  | [], _ :: _ => none
  | a :: as, b :: bs => if a = b then below? as bs else none

def parent? (path : Path) : Option Path :=
  if path.isEmpty then none else some path.dropLast

/-! ## Text -/

/-- The text of a path: every key after a slash, and a lone slash for the root. -/
def text : Path → String
  | [] => "/"
  | keys => String.join (keys.map fun key => "/" ++ key.text)

/-- The pieces between slashes, empty ones included. -/
def pieces : List Char → List (List Char)
  | [] => [[]]
  | c :: rest =>
    if c = '/' then [] :: pieces rest
    else
      match pieces rest with
      | [] => [[c]]
      | piece :: others => (c :: piece) :: others

/-- The keys of a path text from its nonempty pieces. The priority key may only come last. -/
def ofPieces (source : String) : List String → Except DataError Path
  | [] => .ok []
  | piece :: rest => do
    if piece = Key.priority.text then
      if !rest.isEmpty then throw (.path source .priorityInside)
    else if let some fault := Key.fault? piece then
      throw (.path source (.segment piece fault))
    let keys ← ofPieces source rest
    return ⟨piece⟩ :: keys

/-- Reads a path. Slashes at the ends and repeated slashes count for nothing. -/
def parse (source : String) : Except DataError Path :=
  ofPieces source (((pieces source.toList).filter (!·.isEmpty)).map String.ofList)

end Path

end Replica
