import Replica.Key
import Replica.Text.Quoted

/-!
# Errors in data

The causes for which keys, paths, numbers, priorities and documents are refused, and the one
wording of each.
-/

namespace Replica

def Key.Fault.message : Key.Fault → String
  | .empty => "keys must be non-empty"
  | .tooLong => "keys are limited to " ++ toString Key.maxBytes ++ " bytes"
  | .forbidden c => "contains forbidden character " ++ Text.quotedSingle c

/-- Why a text is no path. -/
inductive PathFault where
  /-- The reserved priority key stands before the last segment. -/
  | priorityInside
  | segment (text : String) (fault : Key.Fault)
  deriving DecidableEq, Repr

/-- Why a value is no priority. -/
inductive PriorityFault where
  | boolean (value : Bool)
  /-- Arrays and objects are no priorities. -/
  | container
  deriving DecidableEq, Repr

/-- Why a document is no node. -/
inductive DocumentFault where
  | unreadable
  | valueBesideChildren
  | valueNotScalar
  deriving DecidableEq, Repr

inductive DataError where
  | key (text : String) (fault : Key.Fault)
  | path (text : String) (fault : PathFault)
  | nonFinite
  | priority (fault : PriorityFault)
  | document (fault : DocumentFault)
  deriving DecidableEq, Repr

def Key.Fault.refusal (text : String) (fault : Key.Fault) : String :=
  "invalid key " ++ Text.quoted text ++ ": " ++ fault.message

def PathFault.message : PathFault → String
  | .priorityInside => ".priority may only appear as the last segment"
  | .segment text fault => fault.refusal text

def PriorityFault.message : PriorityFault → String
  | .boolean value =>
    "boolean " ++ (if value then "true" else "false") ++ " cannot be used as a priority"
  | .container => "priorities must be numbers or strings"

def DocumentFault.message : DocumentFault → String
  | .unreadable => "not a JSON text"
  | .valueBesideChildren => ".value cannot be combined with other children"
  | .valueNotScalar => ".value must hold a scalar"

def DataError.message : DataError → String
  | .key text fault => fault.refusal text
  | .path text fault => "invalid path " ++ Text.quoted text ++ ": " ++ fault.message
  | .nonFinite => "non-finite numbers are not valid data"
  | .priority fault => "invalid priority: " ++ fault.message
  | .document fault => "invalid JSON data: " ++ fault.message

def Key.parse (text : String) : Except DataError Key :=
  match Key.fault? text with
  | some fault => .error (.key text fault)
  | none => .ok ⟨text⟩

end Replica
