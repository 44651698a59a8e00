import Replica.Index

/-!
# Caches

A cache is a snapshot with what is known about its completeness. A view keeps two of them: the
data of the server alone, and the visible data, which has the pending writes laid over it and is
what listeners see.
-/

namespace Replica

/-- A snapshot of one location and how complete it is. -/
structure Cache where
  node : Node := .empty
  /-- The snapshot has everything at its location, as far as the query asks for it. -/
  complete : Bool := false
  /-- The query may have left children out, so a missing child proves nothing. -/
  filtered : Bool := false

namespace Cache

/-- Whether the cache knows everything at its location, whatever a query asks for. -/
def knowsAll (cache : Cache) : Bool :=
  cache.complete && !cache.filtered

def knowsChild (cache : Cache) (key : Key) : Bool :=
  cache.knowsAll || cache.node.hasChild key

def knowsPath (cache : Cache) : Path → Bool
  | [] => cache.knowsAll
  | key :: _ => cache.knowsChild key

def complete? (cache : Cache) : Option Node :=
  if cache.complete then some cache.node else none

end Cache

/-- The two caches of a view. -/
structure Caches where
  /-- What listeners see. -/
  visible : Cache := {}
  server : Cache := {}

end Replica
