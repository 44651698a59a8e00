import Replica.Engine.Basic
import Replica.Proofs.View.Basic

/-!
# Routing

An operation is routed to every site that it reaches, and to no other. Routing never fails: every
site takes the operation as it is seen from there, and what is told about a location comes from
the views of that location.
-/

namespace Replica.Sites

/-- The sites are in path order, and each of them is sound. -/
structure Sound (sites : Sites) : Prop where
  ascending : Sorted.Ascending sites
  sound : ∀ entry ∈ sites, entry.2.Sound entry.1

theorem Sound.site
    {sites : Sites} (sound : sites.Sound) {path : Path} {site : Site}
    (found : Sorted.find? path sites = some site) : site.Sound path :=
  sound.sound _ (Sorted.mem_of_find?_eq_some found)

theorem Sound.insert
    {sites : Sites} (sound : sites.Sound) {path : Path} {site : Site}
    (siteSound : site.Sound path) :
    Sound (Sorted.insert path site sites) where
  ascending := Sorted.ascending_insert site sound.ascending
  sound := by
    intro entry member
    rcases Sorted.mem_of_mem_insert member with rfl | old
    · exact siteSound
    · exact sound.sound entry old

theorem Sound.canonical_serverNode?
    {sites : Sites} (sound : sites.Sound) {path : Path} {strictly : Bool}
    {node : Node} (answer : sites.serverNode? path strictly = some node) :
    node.Canonical := by
  obtain ⟨entry, member, entryAnswer⟩ :=
    List.exists_of_findSome?_eq_some answer
  dsimp only at entryAnswer
  split at entryAnswer
  · cases entryAnswer
  · obtain ⟨below, _, siteAnswer⟩ :=
      Option.bind_eq_some_iff.mp entryAnswer
    exact (sound.sound entry member).canonical_serverNode? siteAnswer

/-- The operation that reaches a location, if it does. -/
def reaching? (operation : Operation) (path : Path) : Option Operation :=
  if concerns operation path then operation.relativeTo? path else none

theorem reaching?_eq_some_iff
    {operation relative : Operation} {path : Path} :
    reaching? operation path = some relative ↔
      concerns operation path = true ∧
        operation.relativeTo? path = some relative := by
  unfold reaching?
  rw [Option.ite_none_right_eq_some]

theorem shows_of_reaching?
    {operation relative : Operation} (valid : operation.Valid)
    {path : Path} (reaches : reaching? operation path = some relative) :
    operation.Shows relative path :=
  Operation.shows_of_relativeTo? valid (reaching?_eq_some_iff.mp reaches).2

/-! ## One step -/

def told (raised : List (Path × List Event)) : List Event :=
  raised.flatMap (·.2)

/-- A location sees nothing of what lies between two stages of routing. -/
structure Still (before after : Routed) (path : Path) : Prop where
  site : Sorted.find? path after.sites = Sorted.find? path before.sites
  events : ∀ event : Event, event.path = path →
    (event ∈ told after.raised ↔ event ∈ told before.raised)

/-- A site takes an operation between two stages of routing. -/
structure Takes (pending : Pending) (operation : Operation) (path : Path)
    (site : Site) (ancestor? : Option Node) (before after : Routed) :
    Prop where
  ancestor : ∀ ancestor ∈ ancestor?, ancestor.Canonical
  stored : Sorted.find? path after.sites =
    some (site.after operation (pending.at path) ancestor?)
  events : ∀ event : Event, event.path = path →
    (event ∈ told after.raised ↔
      event ∈ told before.raised ∨
        site.Tells operation (pending.at path) ancestor? event)

theorem Still.refl (routed : Routed) (path : Path) :
    Still routed routed path :=
  ⟨rfl, fun _ _ => Iff.rfl⟩

theorem Still.trans
    {first second third : Routed} {path : Path}
    (before : Still first second path) (after : Still second third path) :
    Still first third path :=
  ⟨after.site.trans before.site, fun event located =>
    (after.events event located).trans (before.events event located)⟩

variable {pending : Pending} {operation : Operation}

/-- A step to one location never fails and shows at no other location. -/
theorem step_ok
    (pendingSound : pending.Sound) (valid : operation.Valid)
    {routed : Routed} (sound : routed.sites.Sound) (path : Path) :
    ∃ next,
      step operation pending routed path = .ok next ∧
        next.sites.Sound ∧
        (∀ other, other ≠ path → Still routed next other) ∧
        match operation.relativeTo? path,
          Sorted.find? path routed.sites with
        | some relative, some site =>
            ∃ ancestor?,
              Takes pending relative path site ancestor? routed next
        | _, _ => Still routed next path := by
  unfold step
  cases reaches : operation.relativeTo? path with
  | none =>
      exact ⟨routed, rfl, sound, fun _ _ => Still.refl _ _, Still.refl _ _⟩
  | some relative =>
      have relativeValid := (Operation.shows_of_relativeTo? valid reaches).valid
      cases found : Sorted.find? path routed.sites with
      | none =>
          exact ⟨routed, rfl, sound, fun _ _ => Still.refl _ _,
            Still.refl _ _⟩
      | some site =>
          have siteSound := sound.site found
          have ancestorCanonical :
              ∀ ancestor ∈ routed.sites.serverNode? path true,
                ancestor.Canonical :=
            fun _ answer => sound.canonical_serverNode? answer
          have vantageSound : (pending.at path).pending.Sound :=
            pendingSound
          obtain ⟨events, applied, characterized⟩ :=
            siteSound.apply_ok vantageSound ancestorCanonical relativeValid
          have raised (event : Event) :
              event ∈ told (routed.raised ++ [(path, events)]) ↔
                event ∈ told routed.raised ∨ event ∈ events := by
            unfold told
            rw [List.flatMap_append, List.mem_append]
            simp
          dsimp only
          rw [applied]
          refine ⟨_, rfl, sound.insert (siteSound.after vantageSound
            ancestorCanonical relativeValid), ?_, _, ancestorCanonical,
            Sorted.find?_insert_self _ _ _, ?_⟩
          · intro other different
            refine ⟨Sorted.find?_insert_of_ne _ different _, ?_⟩
            intro event located
            dsimp only
            rw [raised, characterized]
            refine or_iff_left fun tells => different ?_
            rw [← located]
            exact siteSound.path_of_tells vantageSound ancestorCanonical
              relativeValid tells
          · intro event _
            dsimp only
            rw [raised, characterized]

/-! ## All steps -/

/-- Steps to different locations never fail, and each shows at its own location only. -/
theorem foldlM_step_ok
    (pendingSound : pending.Sound) (valid : operation.Valid)
    {targets : List Path} (distinct : targets.Nodup)
    {routed : Routed} (sound : routed.sites.Sound) :
    ∃ final,
      targets.foldlM (step operation pending) routed = .ok final ∧
        final.sites.Sound ∧
        (∀ path, path ∉ targets → Still routed final path) ∧
        ∀ path ∈ targets,
          match operation.relativeTo? path,
            Sorted.find? path routed.sites with
          | some relative, some site =>
              ∃ ancestor?,
                Takes pending relative path site ancestor? routed final
          | _, _ => Still routed final path := by
  induction targets generalizing routed with
  | nil =>
      exact ⟨routed, rfl, sound, fun _ _ => Still.refl _ _,
        fun _ member => absurd member List.not_mem_nil⟩
  | cons first rest inductionHypothesis =>
      obtain ⟨notLater, restDistinct⟩ := List.nodup_cons.mp distinct
      obtain ⟨next, stepped, nextSound, elsewhere, here⟩ :=
        step_ok pendingSound valid sound first
      obtain ⟨final, folded, finalSound, outside, inside⟩ :=
        inductionHypothesis restDistinct nextSound
      refine ⟨final, ?_, finalSound, ?_, ?_⟩
      · rw [List.foldlM_cons, stepped]
        exact folded
      · intro path notTarget
        have different : path ≠ first := by
          rintro rfl
          exact notTarget List.mem_cons_self
        exact (elsewhere path different).trans
          (outside path fun later =>
            notTarget (List.mem_cons_of_mem first later))
      · intro path member
        rcases List.mem_cons.mp member with rfl | later
        · have afterwards := outside path notLater
          split at here
          · obtain ⟨ancestor?, takes⟩ := here
            refine ⟨ancestor?, takes.ancestor,
              afterwards.site.trans takes.stored, ?_⟩
            exact fun event located =>
              (afterwards.events event located).trans
                (takes.events event located)
          · exact here.trans afterwards
        · have different : path ≠ first := by
            rintro rfl
            exact notLater later
          have before := elsewhere path different
          have result := inside path later
          rw [before.site] at result
          split at result
          · obtain ⟨ancestor?, takes⟩ := result
            refine ⟨ancestor?, takes.ancestor, takes.stored, ?_⟩
            intro event located
            rw [takes.events event located, before.events event located]
          · exact before.trans result

/-- The outcome of routing an operation: locations that it reaches take it, all others stay as
they were and are told nothing. -/
structure Delivered (pending : Pending) (operation : Operation)
    (sites next : Sites) (events : List Event) : Prop where
  sound : next.Sound
  missed : ∀ path, reaching? operation path = none ∨
      Sorted.find? path sites = none →
    Sorted.find? path next = Sorted.find? path sites ∧
      ∀ event ∈ events, event.path ≠ path
  reached : ∀ path relative site,
    reaching? operation path = some relative →
    Sorted.find? path sites = some site →
    ∃ ancestor? : Option Node,
      (∀ ancestor ∈ ancestor?, ancestor.Canonical) ∧
      Sorted.find? path next =
        some (site.after relative (pending.at path) ancestor?) ∧
      ∀ event : Event, event.path = path →
        (event ∈ events ↔
          site.Tells relative (pending.at path) ancestor? event)

section

variable {sites : Sites} (sound : sites.Sound)

include sound

private theorem nodup_targets :
    ((sites.map (·.1)).filter (concerns operation)).Nodup :=
  (Sorted.nodup_keys sound.ascending).filter _

theorem mem_targets_iff {path : Path} :
    path ∈ (sites.map (·.1)).filter (concerns operation) ↔
      (Sorted.find? path sites).isSome = true ∧
        concerns operation path = true := by
  rw [List.mem_filter, List.mem_map]
  refine and_congr_left fun _ => ?_
  constructor
  · rintro ⟨entry, member, rfl⟩
    rw [Sorted.find?_of_mem sound.ascending member]
    rfl
  · intro stored
    obtain ⟨site, found⟩ := Option.isSome_iff_exists.mp stored
    exact ⟨_, Sorted.mem_of_find?_eq_some found, rfl⟩

end

/-- Routing never fails. -/
theorem route_ok
    (pendingSound : pending.Sound) (valid : operation.Valid)
    {sites : Sites} (sound : sites.Sound) :
    ∃ events next,
      sites.route operation pending = .ok (events, next) ∧
        Delivered pending operation sites next events := by
  obtain ⟨final, folded, finalSound, outside, inside⟩ :=
    @foldlM_step_ok pending operation pendingSound valid _
      (nodup_targets sound) ⟨sites, []⟩ sound
  let sorted :=
    final.raised.mergeSort fun a b => bottomUp a.1 b.1 != .gt
  have mem_sorted (event : Event) :
      event ∈ sorted.flatMap (·.2) ↔ event ∈ told final.raised := by
    unfold told
    rw [List.mem_flatMap, List.mem_flatMap]
    exact exists_congr fun entry =>
      and_congr_left fun _ => List.mem_mergeSort
  refine ⟨sorted.flatMap (·.2), final.sites, ?_, finalSound, ?_, ?_⟩
  · unfold route
    dsimp only
    rw [folded]
    rfl
  · intro path misses
    have still : Still ⟨sites, []⟩ final path := by
      by_cases target :
          path ∈ (sites.map (·.1)).filter (concerns operation)
      · obtain ⟨stored, concerned⟩ := (mem_targets_iff sound).mp target
        have result := inside path target
        rcases misses with unreached | absent
        · unfold reaching? at unreached
          rw [if_pos concerned] at unreached
          rw [unreached] at result
          exact result
        · rw [absent] at stored
          cases stored
      · exact outside path target
    refine ⟨still.site, fun event member located => ?_⟩
    rw [mem_sorted, still.events event located] at member
    cases member
  · intro path relative site reaches found
    obtain ⟨concerned, reaches⟩ := reaching?_eq_some_iff.mp reaches
    have target :
        path ∈ (sites.map (·.1)).filter (concerns operation) := by
      rw [mem_targets_iff sound, found]
      exact ⟨rfl, concerned⟩
    have result := inside path target
    rw [reaches] at result
    dsimp only at result
    rw [found] at result
    obtain ⟨ancestor?, takes⟩ := result
    refine ⟨ancestor?, takes.ancestor, takes.stored, ?_⟩
    intro event located
    rw [mem_sorted, takes.events event located]
    exact or_iff_right List.not_mem_nil

end Replica.Sites
