import Replica.Engine.Basic

/-!
# Ready-made engines

Small trees, and an engine with one listener over data that the server has sent already.
-/

namespace Replica

namespace Node

/-- A branch of integers under one-letter keys. -/
def ofIntegers (entries : List (String × Int)) : Node :=
  .ofChildren <| entries.filterMap fun (name, value) =>
    (Number.ofInt? value).map fun number => (⟨name⟩, .ofScalar (.number number))

def smallTree : Node := ofIntegers [("a", 1), ("b", 2)]

/-- Five children whose values run against their keys. -/
def letters : Node := ofIntegers [("a", 5), ("b", 4), ("c", 3), ("d", 2), ("e", 1)]

end Node

namespace Engine

def seedListener : ListenerId := 1

/-- An engine with a listener for every kind of event on the default query at a location, where
the server has sent the given data. -/
def seeded (path : Path) (data : Node) : Engine :=
  let attached :=
    (create { session := "fixture" }).register { path := path } (.all seedListener)
  (attached.engine.serverOverwrite path data).engine

end Engine

end Replica
