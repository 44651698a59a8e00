import Replica.Change.Basic

/-!
# Errors in synchronisation

The causes for which writes, acknowledgements, queries and change tracking are refused, and the
one wording of each.
-/

namespace Replica

/-- The number by which a local write is named. -/
abbrev WriteId := Nat

def writeText (write : WriteId) : String :=
  "write:" ++ toString write

/-- Why a change is not tracked per child. -/
inductive TrackingFault where
  | value
  | move (key : Key)
  | priority
  deriving DecidableEq, Repr

def TrackingFault.message : TrackingFault → String
  | .value => "value change"
  | .move key => "move of " ++ Text.quoted key.text
  | .priority => "priority change"

inductive SyncError where
  /-- Two changes of one child cannot follow each other. -/
  | transition (key : Key) (tracked incoming : ChangeKind)
  | untrackable (fault : TrackingFault)
  | staleWrite (last attempted : WriteId)
  | unknownWrite (write : WriteId)
  | tooManyPending (limit : Nat)
  | query (fault : SelectionFault)
  deriving DecidableEq, Repr

def SyncError.message : SyncError → String
  | .transition key tracked incoming =>
    "invalid change transition for key " ++ Text.quoted key.text ++ ": " ++ incoming.title ++
      " after " ++ tracked.title
  | .untrackable fault => "change cannot be tracked per child: " ++ fault.message
  | .staleWrite last attempted =>
    "write id " ++ writeText attempted ++ " is not greater than the last write id " ++
      writeText last
  | .unknownWrite write => "unknown write " ++ writeText write
  | .tooManyPending limit => "too many pending writes (limit " ++ toString limit ++ ")"
  | .query fault => "invalid query: " ++ fault.message

def Selection.validate (selection : Selection) : Except SyncError Unit :=
  match selection.fault? with
  | some fault => .error (.query fault)
  | none => .ok ()

end Replica
