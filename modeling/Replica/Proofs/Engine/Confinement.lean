import Mathlib
import Replica.Proofs.Engine.Maintained
import Replica.Proofs.View.Confined

/-!
# Views never show more than their query asks for

Children enter a window from many places: the server, pending writes, and the data of a view further
up that slides in when a child leaves. Whatever the place, both caches of a view with bounds or a
limit hold only a branch without a priority, in range and within the limit.
-/

namespace Replica

namespace Engine

/-- In every state that a run reaches, both caches of every live view with bounds or a limit are
confined by its query: neither is a leaf or has a priority, all children lie within the bounds, and
there are no more of them than the limit. -/
theorem caches_confined
    (config : Config) (calls : List Call)
    (valid : ∀ call ∈ calls, call.Valid) {path : Path} {view : View}
    (live : ((create config).after calls).Live path view)
    (restricted : view.query.selection.keepsAll = false) :
    view.query.selection.Confines view.caches.visible.node ∧
      view.query.selection.Confines view.caches.server.node := by
  have start := Sound.create config
  obtain ⟨identifier, found⟩ := (start.after valid).lookup?_of_live live
  have fit := (fit_create config).after Selection.maintains_confines start
    valid path identifier view found
  exact ⟨fit.visible restricted, fit.server restricted⟩

def firstFromB : Query where
  path := [⟨"x"⟩]
  selection :=
    { lower? := some ⟨.empty, some ⟨"b"⟩⟩, limit? := some (.first 1) }

def threeChildren : Node :=
  .branch [(⟨"x"⟩, .branch
    [(⟨"a"⟩, .ofScalar (.bool true)), (⟨"b"⟩, .ofScalar (.bool true)),
      (⟨"c"⟩, .ofScalar (.bool true))] none)] none

/-- A view above a window knows all children, and a local write takes the child of the window
away. -/
def windowBelowAll : List Call :=
  [.register { path := [] } (.all 1), .register firstFromB (.all 2),
    .serverOverwrite [] threeChildren,
    .userOverwrite [⟨"x"⟩, ⟨"b"⟩] .empty 1 true]

/-- The next child slides into the window. -/
theorem slides_windowBelowAll :
    (((create { session := "" }).after windowBelowAll).sites.view?
        firstFromB).map (fun view =>
          (view.query.selection.keepsAll,
            view.caches.visible.node.children.map (·.1.text))) =
      some (false, ["c"]) := by
  cbv

theorem caches_confined_slide :
    ∃ view,
      ((create { session := "" }).after windowBelowAll).Live
          firstFromB.path view ∧
        view.query.selection.keepsAll = false ∧
        view.caches.visible.node.children.map (·.1.text) = ["c"] ∧
        view.query.selection.Confines view.caches.visible.node ∧
        view.query.selection.Confines view.caches.server.node := by
  have scalar := Node.Canonical.ofScalar (.bool true)
  have canonical : threeChildren.Canonical :=
    ((Node.Canonical.empty.setDescendant scalar
      [⟨"x"⟩, ⟨"a"⟩]).setDescendant scalar [⟨"x"⟩, ⟨"b"⟩]).setDescendant
        scalar [⟨"x"⟩, ⟨"c"⟩]
  have valid : ∀ call ∈ windowBelowAll, call.Valid := by
    simp [windowBelowAll, Call.Valid, canonical, Node.Canonical.empty]
  obtain ⟨view, found, shown⟩ :=
    Option.map_eq_some_iff.mp slides_windowBelowAll
  obtain ⟨restricted, keys⟩ := Prod.mk.inj shown
  have live := live_of_view? found
  exact ⟨view, live, restricted, keys,
    caches_confined _ _ valid live restricted⟩

end Engine

end Replica
