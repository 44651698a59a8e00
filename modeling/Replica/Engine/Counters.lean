/-!
# Counters

What an engine did since it was created. No counter ever goes down.
-/

namespace Replica

structure Counters where
  serverOperations : Nat := 0
  userWrites : Nat := 0
  acks : Nat := 0
  reverts : Nat := 0
  eventsRaised : Nat := 0
  viewsCreated : Nat := 0
  viewsRemoved : Nat := 0
  errors : Nat := 0
  deriving DecidableEq, Repr

namespace Counters

def countServerOperation (counters : Counters) : Counters :=
  { counters with serverOperations := counters.serverOperations + 1 }

def countUserWrite (counters : Counters) : Counters :=
  { counters with userWrites := counters.userWrites + 1 }

def countAnswer (counters : Counters) (rejected : Bool) : Counters :=
  if rejected then { counters with reverts := counters.reverts + 1 }
  else { counters with acks := counters.acks + 1 }

def countEvents (counters : Counters) (events : Nat) : Counters :=
  { counters with eventsRaised := counters.eventsRaised + events }

def countCreated (counters : Counters) : Counters :=
  { counters with viewsCreated := counters.viewsCreated + 1 }

def countRemoved (counters : Counters) (views : Nat) : Counters :=
  { counters with viewsRemoved := counters.viewsRemoved + views }

def countError (counters : Counters) : Counters :=
  { counters with errors := counters.errors + 1 }

end Counters

end Replica
