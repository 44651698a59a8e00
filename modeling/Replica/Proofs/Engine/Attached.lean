import Mathlib.Data.List.Nodup
import Replica.Proofs.Engine.Attendance
import Replica.Proofs.Engine.Listener

/-!
# Who is attached where

A place is a location with an identifier. Operations attach and detach nobody, a registration adds
one listener in one place, and a listener that leaves a query leaves one place. A revocation clears
every place at or below its location, and tells whom it found there.
-/

namespace Replica

namespace Sites

/-- The listeners of the view in a place, in the order of registration. -/
def attached (sites : Sites) (path : Path) (identifier : String) :
    List ListenerId :=
  ((sites.lookup? path identifier).map fun view =>
    view.registrations.map (·.id)).getD []

variable {sites : Sites} {path : Path} {identifier : String}
  {listener : ListenerId}

theorem attached_of_lookup?
    {view : View} (found : sites.lookup? path identifier = some view) :
    sites.attached path identifier = view.registrations.map (·.id) := by
  rw [attached, found]
  rfl

theorem mem_attached :
    listener ∈ sites.attached path identifier ↔
      ∃ view, sites.lookup? path identifier = some view ∧
        view.HeardBy listener := by
  rw [attached]
  cases sites.lookup? path identifier with
  | none => simp
  | some view =>
      constructor
      · exact fun member => ⟨view, rfl, List.mem_map.mp member⟩
      · rintro ⟨_, same, heard⟩
        cases same
        exact List.mem_map.mpr heard

def everyone (sites : Sites) : List ListenerId :=
  sites.flatMap fun entry =>
    entry.2.flatMap fun named => named.2.registrations.map (·.id)

theorem mem_everyone (sound : sites.Sound) :
    listener ∈ sites.everyone ↔
      ∃ path identifier, listener ∈ sites.attached path identifier := by
  simp only [everyone, List.mem_flatMap]
  constructor
  · rintro ⟨⟨path, site⟩, siteMember, ⟨identifier, view⟩, member, attached⟩
    have found := sound.lookup?_of_mem siteMember member
    exact ⟨path, identifier, (attached_of_lookup? found) ▸ attached⟩
  · rintro ⟨path, identifier, attached⟩
    obtain ⟨view, found, heard⟩ := mem_attached.mp attached
    obtain ⟨site, siteFound, viewFound⟩ := lookup?_eq_some_iff.mp found
    exact ⟨_, Sorted.mem_of_find?_eq_some siteFound, _,
      Sorted.mem_of_find?_eq_some viewFound, List.mem_map.mpr heard⟩

/-- When no listener is attached twice, everyone is listed once. -/
theorem nodup_everyone
    (sound : sites.Sound)
    (once : ∀ path identifier, (sites.attached path identifier).Nodup)
    (only : ∀ listener path identifier otherPath other,
      listener ∈ sites.attached path identifier →
      listener ∈ sites.attached otherPath other →
        path = otherPath ∧ identifier = other) :
    sites.everyone.Nodup := by
  have here {path : Path} {site : Site} (siteMember : (path, site) ∈ sites)
      {identifier : String} {view : View}
      (member : (identifier, view) ∈ site) :
      view.registrations.map (·.id) = sites.attached path identifier :=
    (attached_of_lookup? (sound.lookup?_of_mem siteMember member)).symm
  refine List.nodup_flatMap.mpr ⟨?_, ?_⟩
  · rintro ⟨path, site⟩ siteMember
    refine List.nodup_flatMap.mpr ⟨?_, ?_⟩
    · rintro ⟨identifier, view⟩ member
      exact (here siteMember member) ▸ once path identifier
    · have ascending := (sound.sound _ siteMember).ascending
      refine ascending.imp_of_mem ?_
      rintro ⟨identifier, view⟩ ⟨other, otherView⟩ first second order
      intro listener firstHas secondHas
      dsimp only at firstHas secondHas
      rw [here siteMember first] at firstHas
      rw [here siteMember second] at secondHas
      obtain ⟨_, rfl⟩ := only _ _ _ _ _ firstHas secondHas
      rw [Std.ReflOrd.compare_self] at order
      cases order
  · refine sound.ascending.imp_of_mem ?_
    rintro ⟨path, site⟩ ⟨otherPath, otherSite⟩ first second order
    intro listener firstHas secondHas
    obtain ⟨⟨identifier, view⟩, member, attached⟩ :=
      List.mem_flatMap.mp firstHas
    obtain ⟨⟨other, otherView⟩, otherMember, otherAttached⟩ :=
      List.mem_flatMap.mp secondHas
    rw [here first member] at attached
    rw [here second otherMember] at otherAttached
    obtain ⟨rfl, _⟩ := only _ _ _ _ _ attached otherAttached
    rw [Std.ReflOrd.compare_self] at order
    cases order

end Sites

namespace Engine

variable {engine : Engine} {path : Path} {identifier : String}

theorem Untouched.attached
    {next : Engine} (untouched : engine.Untouched next) (path : Path)
    (identifier : String) :
    next.sites.attached path identifier =
      engine.sites.attached path identifier := by
  have related := untouched.views path identifier
  rw [Sites.attached, Sites.attached]
  generalize engine.sites.lookup? path identifier = old? at related ⊢
  generalize next.sites.lookup? path identifier = new? at related ⊢
  cases related with
  | none => rfl
  | some stays =>
      rw [Option.map_some, Option.map_some, stays.registrations]

theorem attached_register
    (engine : Engine) {query : Query}
    (sensible : query.selection.validate = .ok ())
    (registration : Registration) (path : Path) (identifier : String) :
    (engine.perform (.register query registration)).2.sites.attached path
        identifier =
      engine.sites.attached path identifier ++
        if query.isAt path identifier then [registration.id] else [] := by
  obtain ⟨sites, _⟩ := engine.register_ok sensible registration
  rw [perform, sites]
  cases here : query.isAt path identifier with
  | true =>
      obtain ⟨rfl, rfl⟩ := Query.isAt_iff.mp here
      rw [if_pos rfl, Sites.attached_of_lookup? Sites.lookup?_place_self,
        View.joinedBy, List.map_append, Sites.attached]
      cases engine.sites.lookup? query.path query.identifier with
      | none => rfl
      | some view => rfl
  | false =>
      have different : path ≠ query.path ∨ identifier ≠ query.identifier :=
        not_and_or.mp fun same => by
          rw [Query.isAt_iff.mpr same] at here
          cases here
      rw [if_neg Bool.false_ne_true, List.append_nil, Sites.attached,
        Sites.attached, Sites.lookup?_place_of_ne different]

theorem attached_unregister
    (tended : engine.Tended) (query : Query) (listener : ListenerId)
    (path : Path) (identifier : String) :
    (engine.unregister query listener).2.sites.attached path identifier =
      (engine.sites.attached path identifier).filter fun other =>
        !(query.isAt path identifier && other == listener) := by
  rw [Sites.attached, Sites.attached,
    (departs_unregister tended query listener).views, Call.leaver?]
  cases engine.sites.lookup? path identifier with
  | none => rfl
  | some view =>
      rw [Option.bind_some, Option.map_some, Option.getD_some]
      cases query.isAt path identifier with
      | false => exact (List.filter_true _).symm
      | true =>
          rw [if_pos rfl, View.leftBy?, View.without?]
          split
          · rename_i everyone
            symm
            simpa using everyone
          · rw [Option.map_some, Option.getD_some, List.filter_map]
            rfl

theorem attached_revoke
    (tended : engine.Tended) (above path : Path) (identifier : String) :
    (engine.revoke above).2.sites.attached path identifier =
      if Path.contains above path then []
      else engine.sites.attached path identifier := by
  rw [Sites.attached, lookup?_revoke tended, Sites.attached]
  split
  · rfl
  · rfl

/-- The listeners that a revocation finds, in the order in which it finds them. -/
def endedAt (engine : Engine) (path : Path) : List ListenerId :=
  (engine.revoke path).1.flatMap (·.2)

theorem endedAt_eq (engine : Engine) (above : Path) :
    engine.endedAt above =
      Sites.everyone
        (engine.sites.filter fun entry => Path.contains above entry.1) := by
  rw [endedAt, revoke, List.partition_eq_filter_filter]
  dsimp only
  rw [List.flatMap_assoc]
  refine List.flatMap_congr fun entry _ => ?_
  rw [Site.listeners, List.flatMap_map]

/-- An event of a call is for a listener attached before it, or for the one that it attaches. -/
theorem Course.addressed
    {call : Call} {outcome : List Event × Engine}
    (course : Course engine call outcome) (sound : engine.Sound)
    {event : Event} (member : event ∈ outcome.1) :
    (∃ path identifier,
        event.listener ∈ engine.sites.attached path identifier) ∨
      call.Registers event.listener := by
  cases course with
  | quiet _ _ _ _ _ => cases member
  | routed valid pending _ delivered _ _ _ _ =>
      obtain ⟨identifier, view, found, heard⟩ :=
        delivered.heardBy sound.sites pending valid member
      exact Or.inl ⟨event.path, identifier,
        Sites.mem_attached.mpr ⟨view, found, heard⟩⟩
  | narrowed _ _ _ => cases member
  | joined isCall _ _ _ _ _ =>
      subst isCall
      exact Or.inr (View.listener_of_mem_initialEvents member).symm

end Engine

end Replica
