import Replica.Proofs.Engine.Fresh
import Replica.Proofs.Engine.Maintained
import Replica.Proofs.View.Difference
import Replica.Proofs.View.Settled

/-!
# Repeated data of the server

The server may send the same data for the same location again. Every view that takes it has
settled on it: the second time it stays as it is and tells its listeners nothing, whatever it
orders, bounds or limits, and whatever writes are pending.
-/

namespace Replica

namespace View

/-- The filter of a view lets the children of both its caches through. -/
def Admitted (view : View) : Prop :=
  view.caches.Admitted view.filter

section

variable {view : View} {path : Path} (sound : view.Sound path)
  (noted : view.caches.server.filtered = view.filter.drops)
  (admitted : view.Admitted) {vantage : Vantage}
  (pendingSound : vantage.pending.Sound) {ancestor? : Option Node}
  (ancestorCanonical : ∀ ancestor ∈ ancestor?, ancestor.Canonical)
  {below : Path} (writable : below.Writable) {node : Node}
  (canonical : node.Canonical)

include sound noted admitted pendingSound ancestorCanonical writable canonical

private theorem after_again (later? : Option Node) :
    (view.after (.overwrite .server below node) vantage ancestor?).after
        (.overwrite .server below node) vantage later? =
      view.after (.overwrite .server below node) vantage ancestor? :=
  congrArg (fun caches => { view with caches := caches })
    (Caches.after_again sound.canonical noted admitted pendingSound
      ancestorCanonical writable canonical later?)

private theorem silent_again
    {later? : Option Node}
    (laterCanonical : ∀ later ∈ later?, later.Canonical)
    {told : List Event} {next : View}
    (applied :
      (view.after (.overwrite .server below node) vantage ancestor?).apply
          (.overwrite .server below node) vantage later? =
        .ok (told, next)) : told = [] := by
  have again :=
    after_again sound noted admitted pendingSound ancestorCanonical writable
      canonical later?
  have valid : (Operation.overwrite .server below node).Valid := canonical
  refine (sound.after pendingSound ancestorCanonical valid).silent
    pendingSound laterCanonical valid ?_ ?_ applied
  · rw [again]
    exact id
  · rw [again]

end

end View

namespace Engine

/-- All live views keep only children that their filter lets through. -/
def Admitted (engine : Engine) : Prop :=
  ∀ path identifier view,
    engine.sites.lookup? path identifier = some view → view.Admitted

private theorem admitted_after
    (config : Config) {calls : List Call}
    (valid : ∀ call ∈ calls, call.Valid) :
    ((create config).after calls).Admitted := by
  have fit := (fit_create config).after
    (fun selection => selection.filter.maintains_holds)
    (Sound.create config) valid
  intro path identifier view found
  obtain ⟨visible, server⟩ := fit path identifier view found
  exact ⟨visible, server⟩

variable {engine : Engine}

section

variable (sound : engine.Sound) (fresh : engine.Fresh)
  (admitted : engine.Admitted) {path : Path} (writable : path.Writable)
  {node : Node} (canonical : node.Canonical)

include sound fresh admitted writable canonical

/-- A site that has taken new data stays as it is when it takes it again. -/
theorem site_again
    {base : Path} {site : Site} {relative : Operation}
    (reaches : Sites.reaching? (.overwrite .server path node) base =
      some relative)
    (found : Sorted.find? base engine.sites = some site)
    {ancestor? later? : Option Node}
    (ancestorCanonical : ∀ ancestor ∈ ancestor?, ancestor.Canonical)
    (laterCanonical : ∀ later ∈ later?, later.Canonical) :
    let next := site.after relative (engine.pending.at base) ancestor?
    next.after relative (engine.pending.at base) later? = next ∧
      ∀ event : Event,
        ¬ next.Tells relative (engine.pending.at base) later? event := by
  obtain ⟨below, data, rfl, belowWritable⟩ :=
    Operation.overwrite_of_relativeTo? writable
      (Sites.reaching?_eq_some_iff.mp reaches).2
  have valid : (Operation.overwrite .server path node).Valid := canonical
  have dataCanonical : data.Canonical :=
    (Sites.shows_of_reaching? valid reaches).valid
  have siteSound := sound.sites.site found
  have isView {entry : String × View} (member : entry ∈ site) :
      engine.sites.lookup? base entry.1 = some entry.2 :=
    Sites.lookup?_eq_some_iff.mpr
      ⟨site, found, Sorted.find?_of_mem siteSound.ascending member⟩
  refine ⟨?_, ?_⟩
  · unfold Site.after
    rw [List.map_map]
    refine List.map_congr_left fun entry member => ?_
    refine Prod.ext rfl ?_
    exact View.after_again (siteSound.sound entry member)
      (fresh _ _ _ (isView member)).filtered (admitted _ _ _ (isView member))
      sound.pending ancestorCanonical belowWritable dataCanonical later?
  · rintro event ⟨_, nextMember, told, next, applied, isTold⟩
    obtain ⟨entry, member, rfl⟩ := List.mem_map.mp nextMember
    have nothing :=
      View.silent_again (siteSound.sound entry member)
        (fresh _ _ _ (isView member)).filtered
        (admitted _ _ _ (isView member)) sound.pending ancestorCanonical
        belowWritable dataCanonical laterCanonical applied
    rw [nothing] at isTold
    cases isTold

private theorem delivered_again
    {next last : Sites} {events told : List Event}
    (first : Sites.Delivered engine.pending (.overwrite .server path node)
      engine.sites next events)
    (second : Sites.Delivered engine.pending (.overwrite .server path node)
      next last told) :
    last = next ∧ told = [] := by
  have again (base : Path) (relative : Operation) (site : Site)
      (reaches : Sites.reaching? (.overwrite .server path node) base =
        some relative)
      (found : Sorted.find? base engine.sites = some site) :=
    @site_again engine sound fresh admitted path writable node canonical base
      site relative reaches found
  constructor
  · refine Sorted.eq_of_find? second.sound.ascending first.sound.ascending
      fun base => ?_
    cases reaches : Sites.reaching? (.overwrite .server path node) base with
    | none => exact (second.missed base (.inl reaches)).1
    | some relative =>
        cases found : Sorted.find? base engine.sites with
        | none =>
            have absent := (first.missed base (.inr found)).1.trans found
            exact (second.missed base (.inr absent)).1
        | some site =>
            obtain ⟨ancestor?, ancestorCanonical, stored, _⟩ :=
              first.reached base relative site reaches found
            obtain ⟨later?, laterCanonical, storedAgain, _⟩ :=
              second.reached base relative _ reaches stored
            rw [storedAgain, stored, (again base relative site reaches found
              ancestorCanonical laterCanonical).1]
  · refine List.eq_nil_iff_forall_not_mem.mpr fun event member => ?_
    obtain ⟨relative, nextSite, later?, reaches, nextFound, laterCanonical,
      tells⟩ := second.tells member
    cases found : Sorted.find? event.path engine.sites with
    | none =>
        rw [(first.missed event.path (.inr found)).1, found] at nextFound
        cases nextFound
    | some site =>
        obtain ⟨ancestor?, ancestorCanonical, stored, _⟩ :=
          first.reached event.path relative site reaches found
        rw [stored] at nextFound
        cases nextFound
        exact (again event.path relative site reaches found ancestorCanonical
          laterCanonical).2 event tells

end

/-- The engine can always take new data of the server for one location. -/
theorem serverOverwrite_ok
    (sound : engine.Sound) (path : Path) {node : Node}
    (canonical : node.Canonical) :
    ∃ events next,
      engine.serverOverwrite path node = ⟨.ok events, next⟩ ∧
        next.pending = engine.pending ∧
        Sites.Delivered engine.pending (.overwrite .server path node)
          engine.sites next.sites events := by
  let counted : Engine :=
    { engine with counters := engine.counters.countServerOperation }
  have countedSound : counted.sites.Sound := sound.sites
  have valid : (Operation.overwrite .server path node).Valid := canonical
  obtain ⟨events, next, isReply, isPending, _, delivered, _⟩ :=
    run_ok countedSound valid sound.pending
  exact ⟨events, next, isReply, isPending, delivered⟩

/-- In every state that a run reaches, whatever views are live and whatever writes are pending, data
of the server that arrives twice in a row is taken both times. The second time raises no event, and
leaves every view with both its caches, their snapshots and what is known about their completeness,
exactly as the first time left it. -/
theorem repeated_data_silent
    (config : Config) (calls : List Call)
    (valid : ∀ call ∈ calls, call.Valid)
    {path : Path} (writable : path.Writable)
    {node : Node} (canonical : node.Canonical) :
    let first := ((create config).after calls).serverOverwrite path node
    let second := first.engine.serverOverwrite path node
    (∃ events, first.result = .ok events) ∧ second.result = .ok [] ∧
      second.engine.sites = first.engine.sites ∧
      second.engine.pending = first.engine.pending := by
  have start := Sound.create config
  have sound := start.after valid
  have fresh := (fresh_create config).after start valid
  have admitted := admitted_after config valid
  generalize (create config).after calls = engine at *
  intro first second
  obtain ⟨events, next, isFirst, isPending, delivered⟩ :=
    serverOverwrite_ok sound path canonical
  have nextSound : next.Sound :=
    ⟨isPending ▸ sound.pending, delivered.sound⟩
  obtain ⟨told, last, isSecond, stillPending, deliveredAgain⟩ :=
    serverOverwrite_ok nextSound path canonical
  rw [isPending] at deliveredAgain
  obtain ⟨sameSites, nothing⟩ :=
    delivered_again sound fresh admitted writable canonical delivered
      deliveredAgain
  have isFirstReply : first = ⟨.ok events, next⟩ := isFirst
  have isSecondReply : second = ⟨.ok told, last⟩ := by
    change first.engine.serverOverwrite path node = _
    rw [isFirstReply]
    exact isSecond
  rw [isFirstReply, isSecondReply, nothing]
  exact ⟨⟨events, rfl⟩, rfl, sameSites, stillPending⟩

/-- A window of one, and a pending write that may slide into it. -/
def windowOfOne : List Call :=
  [.register
      { path := []
        selection := { index := .value, limit? := some (.first 1) } } (.all 1),
    .serverOverwrite [] (.branch [(⟨"a"⟩, .ofScalar (.bool false))] none),
    .userOverwrite [⟨"b"⟩] (.ofScalar (.bool true)) 1 true]

private theorem slides_windowOfOne :
    ((((create { session := "" }).after windowOfOne).serverOverwrite
        [⟨"a"⟩] (.ofScalar (.text "z"))).result.toOption.map fun events =>
          events.map fun event => (event.kind, event.key?)) =
      some
        [(.removed, some ⟨"a"⟩), (.added, some ⟨"b"⟩), (.value, none)] := by
  cbv

/-- A child that falls behind its sibling is let go by the window, which does not take it back when
it arrives again. -/
theorem repeated_data_silent_slide :
    let engine := (create { session := "" }).after windowOfOne
    let first := engine.serverOverwrite [⟨"a"⟩] (.ofScalar (.text "z"))
    let second :=
      first.engine.serverOverwrite [⟨"a"⟩] (.ofScalar (.text "z"))
    (first.result.toOption.map fun events =>
        events.map fun event => (event.kind, event.key?)) =
        some
          [(.removed, some ⟨"a"⟩), (.added, some ⟨"b"⟩), (.value, none)] ∧
      second.result = .ok [] ∧
      second.engine.sites = first.engine.sites := by
  intro engine first second
  have canonical :
      (Node.branch [(⟨"a"⟩, .ofScalar (.bool false))] none).Canonical :=
    Node.Canonical.empty.setChild (Node.Canonical.ofScalar (.bool false))
      ⟨"a"⟩
  have valid : ∀ call ∈ windowOfOne, call.Valid := by
    simp [windowOfOne, Call.Valid, canonical, Node.Canonical.ofScalar]
  have writable : Path.Writable [⟨"a"⟩] := by
    simp [Path.Writable, Path.Unreserved]
  obtain ⟨_, nothing, unchanged, _⟩ :=
    repeated_data_silent { session := "" } windowOfOne valid writable
      (Node.Canonical.ofScalar (.text "z"))
  exact ⟨slides_windowOfOne, nothing, unchanged⟩

end Engine

end Replica
