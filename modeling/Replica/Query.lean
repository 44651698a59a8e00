import Replica.Index

/-!
# Queries

A query is a location with a selection of its children: an order, optional bounds at both ends,
and an optional limit. The identifier of a selection joins the texts of its parts, and names a
query among the queries at one location.
-/

namespace Replica

/-- One end of a range. -/
structure Bound where
  value : Node
  /-- The key that breaks ties at that value. -/
  key? : Option Key

/-- How many children are kept, and at which end of the range. -/
inductive Limit where
  | first (count : Nat)
  | last (count : Nat)
  deriving DecidableEq, Repr

def Limit.count : Limit → Nat
  | .first count => count
  | .last count => count

/-- How a query orders and restricts the children at its location. -/
structure Selection where
  index : Index := .priority
  lower? : Option Bound := none
  upper? : Option Bound := none
  limit? : Option Limit := none

/-- Why a selection makes no sense. -/
inductive SelectionFault where
  | zeroLimit
  | boundNotScalar
  /-- A bound under the key order has a key beside its value. -/
  | boundKeyUnderKeyOrder
  /-- A bound under the key order is no text. -/
  | boundNotText
  /-- A bound under the priority order is a boolean. -/
  | booleanBoundUnderPriorityOrder
  deriving DecidableEq, Repr

def SelectionFault.message : SelectionFault → String
  | .zeroLimit => "limit must be positive"
  | .boundNotScalar => "bound values must be scalars"
  | .boundKeyUnderKeyOrder => "key-ordered queries take no key in their bounds"
  | .boundNotText => "key-ordered queries need string bounds"
  | .booleanBoundUnderPriorityOrder => "priority-ordered queries cannot use boolean bounds"

def Bound.same (a b : Bound) : Bool :=
  a.value.dataEq b.value && a.key? == b.key?

def Bound.sameOptional : Option Bound → Option Bound → Bool
  | none, none => true
  | some a, some b => a.same b
  | _, _ => false

/-- What is wrong with a bound under an index, if anything is. -/
def Bound.fault? (index : Index) (bound : Bound) : Option SelectionFault :=
  if !bound.value.isEmpty && !bound.value.isLeaf then some .boundNotScalar
  else
    match index with
    | .key =>
      if bound.key?.isSome then some .boundKeyUnderKeyOrder
      else
        match bound.value.value? with
        | some (.text _) => none
        | _ => some .boundNotText
    | .priority =>
      match bound.value.value? with
      | some (.bool _) => some .booleanBoundUnderPriorityOrder
      | _ => none
    | .value | .child _ => none

def Bound.identifier (bound : Bound) : String :=
  match bound.key? with
  | some key => bound.value.display ++ "," ++ key.text
  | none => bound.value.display

namespace Selection

def same (a b : Selection) : Bool :=
  a.index == b.index && Bound.sameOptional a.lower? b.lower? &&
    Bound.sameOptional a.upper? b.upper? && a.limit? == b.limit?

def keepsAll (selection : Selection) : Bool :=
  selection.lower?.isNone && selection.upper?.isNone && selection.limit?.isNone

/-- Whether the selection keeps every child in the default order. -/
def isDefault (selection : Selection) : Bool :=
  selection.keepsAll && selection.index == .priority

/-- What is wrong with a selection, if anything is. The limit is looked at first, then the lower
bound, then the upper one. -/
def fault? (selection : Selection) : Option SelectionFault :=
  if selection.limit?.any (·.count == 0) then some .zeroLimit
  else
    (selection.lower?.bind (Bound.fault? selection.index)).or
      (selection.upper?.bind (Bound.fault? selection.index))

/-- The lowest sibling in range, if there is a lower bound. -/
def lowest? (selection : Selection) : Option (Key × Node) :=
  selection.lower?.map fun bound =>
    selection.index.bound bound.value (bound.key?.getD .least)

/-- The highest sibling in range, if there is an upper bound. -/
def highest? (selection : Selection) : Option (Key × Node) :=
  selection.upper?.map fun bound =>
    selection.index.bound bound.value (bound.key?.getD .greatest)

def limitParts : Option Limit → List String
  | some (.first count) => ["l=f" ++ toString count]
  | some (.last count) => ["l=l" ++ toString count]
  | none => []

/-- The text that identifies the selection among all selections. -/
def identifier (selection : Selection) : String :=
  if selection.isDefault then "default"
  else
    ";".intercalate <|
      ["i=" ++ selection.index.identifier] ++
      (selection.lower?.map fun bound => "s=" ++ bound.identifier).toList ++
      (selection.upper?.map fun bound => "e=" ++ bound.identifier).toList ++
      limitParts selection.limit?

end Selection

/-- A location and a selection of its children. -/
structure Query where
  path : Path
  selection : Selection := {}

namespace Query

def identifier (query : Query) : String :=
  query.selection.identifier

def same (a b : Query) : Bool :=
  a.path == b.path && a.selection.same b.selection

def display (query : Query) : String :=
  Path.text query.path ++ "?" ++ query.identifier

end Query

end Replica
