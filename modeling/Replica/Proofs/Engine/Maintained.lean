import Replica.Proofs.Engine.Step
import Replica.Proofs.View.Maintained

/-!
# What the filters of all views maintain

A view comes into being with what its filter selects, and changes only when it takes an operation.
So a property that the filter of every selection maintains holds of both caches of every live view,
in every state that a run reaches.
-/

namespace Replica

namespace Engine

/-- Both caches of every live view have a property that depends on the selection of the view. -/
def Fit (fits : Selection → Node → Prop) (engine : Engine) : Prop :=
  ∀ path identifier view,
    engine.sites.lookup? path identifier = some view →
      view.caches.Fit (fits view.query.selection)

variable {fits : Selection → Node → Prop}

theorem fit_create (config : Config) : (create config).Fit fits := by
  intro path identifier view found
  cases found

variable
  (maintains : ∀ selection : Selection,
    selection.filter.Maintains (fits selection))

include maintains

private theorem Fit.perform
    {engine : Engine} (fit : engine.Fit fits) (sound : engine.Sound)
    {call : Call} (valid : call.Valid) :
    (engine.perform call).2.Fit fits := by
  intro path identifier view found
  have nextSound := sound.perform valid
  cases (course_perform sound valid).origin sound found with
  | kept oldFound query caches _ _ _ _ =>
      rw [query, caches]
      exact fit path identifier _ oldFound
  | @took old _ _ _ oldFound ancestor shows _ _ result _ _ =>
      subst result
      exact (maintains old.query.selection).after
        (sound.sites.view oldFound).canonical
        (fit path identifier old oldFound) nextSound.pending ancestor
        shows.valid
  | @created query registration _ located isQuery caches _ =>
      subst located isQuery
      rw [caches]
      exact View.fit_create (maintains view.query.selection)
        (Sites.canonical_serverCache sound.sites _) sound.pending

theorem Fit.after
    {engine : Engine} (fit : engine.Fit fits) (sound : engine.Sound)
    {calls : List Call} (valid : ∀ call ∈ calls, call.Valid) :
    (engine.after calls).Fit fits :=
  sound.after_of_perform (Fit fits)
    (fun before callValid fit => fit.perform maintains before callValid) fit
    valid

end Engine

end Replica
