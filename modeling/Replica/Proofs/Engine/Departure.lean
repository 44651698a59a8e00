import Replica.Proofs.Engine.Answer

/-!
# Listeners that leave

A view is there for its listeners, and with the last one it ends. A listener may be detached from
one view, or from all views at one location after the other. Either way the views without listeners
go, the others stay, no site is left without views, and the connection is told of each view that
ends.
-/

namespace Replica

namespace View

/-- The view has listeners and has not ended. -/
structure Attended (view : View) : Prop where
  listened : view.registrations ≠ []
  lasting : view.tornDown = false

/-- What is left of a view without a listener: nothing if nobody else listens. -/
def without? (view : View) (listener : ListenerId) : Option View :=
  if view.registrations.all (·.id == listener) then none
  else some { view with
    registrations := view.registrations.filter (·.id != listener) }

theorem without?_eq_none_iff
    {view : View} {listener : ListenerId} :
    view.without? listener = none ↔
      ∀ registration ∈ view.registrations, registration.id = listener := by
  unfold without?
  split
  · rename_i everyone
    exact ⟨fun _ => by simpa using everyone, fun _ => rfl⟩
  · rename_i others
    exact ⟨nofun, fun everyone => absurd (by simpa using everyone) others⟩

private theorem Attended.without?
    {view rest : View} (attended : view.Attended) {listener : ListenerId}
    (left : view.without? listener = some rest) :
    rest.Attended ∧ rest.query = view.query := by
  unfold View.without? at left
  split at left
  · cases left
  · rename_i others
    cases left
    refine ⟨⟨fun nobody => others ?_, attended.lasting⟩, rfl⟩
    simpa using nobody

/-- Detaching a listener ends the view of which it is the last one. -/
theorem Attended.unregister
    {view : View} (attended : view.Attended) (listener : ListenerId) :
    match view.without? listener with
    | none => (view.unregister listener).1 = true ∧
        (view.unregister listener).2.isEmpty = true
    | some rest => (view.unregister listener).2 = rest ∧
        rest.isEmpty = false := by
  have some_or_none :
      (view.registrations.filter (·.id != listener)).isEmpty =
        view.registrations.all (·.id == listener) := by
    rw [Bool.eq_iff_iff]
    simp
  unfold View.without?
  cases everyone : view.registrations.all (·.id == listener) with
  | true =>
      rw [everyone] at some_or_none
      rw [if_pos rfl]
      refine ⟨?_, some_or_none⟩
      have nobody := List.isEmpty_iff.mp some_or_none
      have someone := List.length_pos_iff.mpr attended.listened
      rw [View.unregister, nobody]
      simpa using Nat.ne_of_lt someone
  | false =>
      rw [everyone] at some_or_none
      rw [if_neg Bool.false_ne_true]
      refine ⟨?_, some_or_none⟩
      simp [View.unregister, some_or_none]

end View

namespace Site

/-- What a leaving listener leaves of the view in a place of a site. -/
def leave? (identifier? : Option String) (listener : ListenerId)
    (entry : String × View) : Option View :=
  if identifier?.all (· == entry.1) then entry.2.without? listener
  else some entry.2

private theorem unregister_cons
    (identifier? : Option String) (listener : ListenerId)
    (identifier : String) {view : View} (attended : view.Attended)
    (rest : Site) :
    let others := unregister identifier? listener rest
    let all := unregister identifier? listener ((identifier, view) :: rest)
    match leave? identifier? listener (identifier, view) with
    | none => all.1 = view.query :: others.1 ∧ all.2.2 = others.2.2
    | some kept =>
        all.1 = others.1 ∧ all.2.2 = (identifier, kept) :: others.2.2 := by
  dsimp only
  unfold leave?
  rw [unregister]
  generalize unregister identifier? listener rest = others
  obtain ⟨ended, wasFound, others⟩ := others
  dsimp only
  cases identifier?.all (· == identifier) with
  | false => exact ⟨rfl, rfl⟩
  | true =>
      have detached := attended.unregister listener
      have sameQuery : (view.unregister listener).2.query = view.query := rfl
      rw [if_pos rfl, if_pos rfl]
      generalize view.unregister listener = outcome at detached sameQuery ⊢
      obtain ⟨found, kept⟩ := outcome
      cases remaining : view.without? listener with
      | none =>
          rw [remaining] at detached
          obtain ⟨rfl, empty⟩ := detached
          dsimp only at empty ⊢
          rw [if_pos empty]
          exact ⟨congrArg (· :: ended) sameQuery, rfl⟩
      | some left =>
          rw [remaining] at detached
          obtain ⟨rfl, someone⟩ := detached
          cases found with
          | false => exact ⟨rfl, rfl⟩
          | true =>
              dsimp only at someone ⊢
              rw [if_neg (by simp [someone])]
              exact ⟨rfl, rfl⟩

/-- A listener that leaves a site takes along the views that nobody else listens to. -/
theorem unregister_eq
    (identifier? : Option String) (listener : ListenerId) {site : Site}
    (attended : ∀ entry ∈ site, entry.2.Attended) :
    (unregister identifier? listener site).1 =
        (site.filter fun entry =>
          (leave? identifier? listener entry).isNone).map (·.2.query) ∧
      (unregister identifier? listener site).2.2 =
        site.filterMap fun entry =>
          (leave? identifier? listener entry).map fun view =>
            (entry.1, view) := by
  induction site with
  | nil => exact ⟨rfl, rfl⟩
  | cons entry rest inductionHypothesis =>
      obtain ⟨first, others⟩ := List.forall_mem_cons.mp attended
      obtain ⟨ended, left⟩ := inductionHypothesis others
      have here := unregister_cons identifier? listener entry.1 first rest
      rw [List.filter_cons, List.filterMap_cons]
      dsimp only at here
      cases remaining : leave? identifier? listener entry with
      | none =>
          rw [remaining] at here
          rw [here.1, here.2, ended, left]
          exact ⟨rfl, rfl⟩
      | some kept =>
          rw [remaining] at here
          rw [here.1, here.2, ended, left]
          exact ⟨rfl, rfl⟩

end Site

/-! ## Places -/

def Query.isAt (path : Path) (identifier : String) (query : Query) : Bool :=
  query.path == path && query.identifier == identifier

theorem Query.isAt_iff
    {path : Path} {identifier : String} {query : Query} :
    query.isAt path identifier = true ↔
      path = query.path ∧ identifier = query.identifier := by
  rw [isAt, Bool.and_eq_true, beq_iff_eq, beq_iff_eq, eq_comm,
    @eq_comm _ query.identifier]

def Signal.query : Signal → Query
  | .start query => query
  | .stop query => query

/-- The signals about a location and an identifier. -/
def Signal.about (path : Path) (identifier : String)
    (signals : List Signal) : List Signal :=
  signals.filter (·.query.isAt path identifier)

/-- What is said about a place when listeners leave: that its view ends, if it does. -/
def Signal.ofLeaving (leave : View → Option View) :
    Option View → List Signal
  | none => []
  | some view =>
      match leave view with
      | none => [.stop view.query]
      | some _ => []

/-- Who is detached from the view in a place by a call. -/
def Call.leaver? (path : Path) (identifier : String) :
    Call → Option ListenerId
  | .unregister query listener =>
      if query.isAt path identifier then some listener else none
  | .removeListener listener => some listener
  | _ => none

/-- What is left of a view when a listener leaves it, if one does. -/
def View.leftBy? (leaver? : Option ListenerId) (view : View) : Option View :=
  match leaver? with
  | some listener => view.without? listener
  | none => some view

theorem View.Attended.leftBy?
    {view rest : View} (attended : view.Attended)
    {leaver? : Option ListenerId} (left : view.leftBy? leaver? = some rest) :
    rest.Attended ∧ rest.query = view.query := by
  cases leaver? with
  | none =>
      cases left
      exact ⟨attended, rfl⟩
  | some listener => exact attended.without? left

namespace Engine

/-- Every site has views, and every view stands at its place and has listeners. -/
structure Tended (engine : Engine) : Prop where
  sound : engine.sites.Sound
  named : engine.Named
  inhabited : ∀ entry ∈ engine.sites, entry.2 ≠ []
  attended : ∀ path identifier view,
    engine.sites.lookup? path identifier = some view → view.Attended

theorem tended_create (config : Config) : (create config).Tended where
  sound := (Sound.create config).sites
  named := named_create config
  inhabited := fun _ member => absurd member List.not_mem_nil
  attended := fun _ _ _ found => absurd found nofun

variable {engine : Engine} {path : Path} {identifier : String}

private theorem Tended.isAt
    (tended : engine.Tended) {view : View}
    (found : engine.sites.lookup? path identifier = some view)
    (otherPath : Path) (other : String) :
    view.query.isAt otherPath other =
      (path == otherPath && identifier == other) := by
  rw [Query.isAt, (tended.sound.view found).located,
    tended.named path identifier view found]

private theorem Tended.view_of_mem
    (tended : engine.Tended) {site : Site}
    (siteFound : Sorted.find? path engine.sites = some site)
    {entry : String × View} (member : entry ∈ site) :
    engine.sites.lookup? path entry.1 = some entry.2 :=
  tended.sound.lookup?_of_mem (Sorted.mem_of_find?_eq_some siteFound) member

/-! ## Listeners that leave -/

/-- Some listeners leave: what is left of each view, and the connection is told of those that
end. -/
structure Departs (engine : Engine)
    (leave : Path → String → View → Option View) (next : Engine) :
    Prop where
  sound : next.sites.Sound
  inhabited : ∀ entry ∈ next.sites, entry.2 ≠ []
  views : ∀ path identifier,
    next.sites.lookup? path identifier =
      (engine.sites.lookup? path identifier).bind (leave path identifier)
  signals : ∃ said, next.signals = engine.signals ++ said ∧
    ∀ path identifier, Signal.about path identifier said =
      Signal.ofLeaving (leave path identifier)
        (engine.sites.lookup? path identifier)

private theorem Departs.congr
    {leave other : Path → String → View → Option View} {next : Engine}
    (departs : engine.Departs leave next)
    (same : ∀ path identifier view,
      engine.sites.lookup? path identifier = some view →
        other path identifier view = leave path identifier view) :
    engine.Departs other next := by
  obtain ⟨said, signals, about⟩ := departs.signals
  refine ⟨departs.sound, departs.inhabited, fun path identifier => ?_,
    said, signals, fun path identifier => ?_⟩
  · rw [departs.views]
    cases found : engine.sites.lookup? path identifier with
    | none => rfl
    | some view => exact (same path identifier view found).symm
  · rw [about]
    cases found : engine.sites.lookup? path identifier with
    | none => rfl
    | some view =>
        rw [Signal.ofLeaving, Signal.ofLeaving,
          same path identifier view found]

private theorem Departs.trans
    {first second : Path → String → View → Option View}
    {middle next : Engine} (before : engine.Departs first middle)
    (after : middle.Departs second next)
    (sameQuery : ∀ path identifier view rest,
      engine.sites.lookup? path identifier = some view →
        first path identifier view = some rest →
          rest.query = view.query) :
    engine.Departs
      (fun path identifier view =>
        (first path identifier view).bind (second path identifier))
      next := by
  obtain ⟨earlier, earlierSignals, earlierAbout⟩ := before.signals
  obtain ⟨later, laterSignals, laterAbout⟩ := after.signals
  refine ⟨after.sound, after.inhabited, fun path identifier => ?_,
    earlier ++ later, ?_, fun path identifier => ?_⟩
  · rw [after.views, before.views, Option.bind_assoc]
  · rw [laterSignals, earlierSignals, List.append_assoc]
  · have split : Signal.about path identifier (earlier ++ later) =
        Signal.about path identifier earlier ++
          Signal.about path identifier later :=
      List.filter_append _ _
    rw [split, earlierAbout, laterAbout, before.views]
    cases found : engine.sites.lookup? path identifier with
    | none => rfl
    | some view =>
        cases left : first path identifier view with
        | none => simp [Signal.ofLeaving, left]
        | some rest =>
            have query := sameQuery path identifier view rest found left
            simp [Signal.ofLeaving, left, query]

/-- Of the views of a site one at most belongs to a place. -/
theorem Tended.filter_isAt
    (tended : engine.Tended) {base : Path} {site : Site}
    (siteFound : Sorted.find? base engine.sites = some site)
    (path : Path) (identifier : String) :
    site.filter (fun entry => entry.2.query.isAt path identifier) =
      if path = base then
        (Sorted.find? identifier site).toList.map fun view =>
          (identifier, view)
      else [] := by
  have placed : ∀ entry ∈ site, entry.2.query.isAt path identifier =
      (base == path && entry.1 == identifier) := fun entry member =>
    tended.isAt (tended.view_of_mem siteFound member) path identifier
  rw [List.filter_congr placed]
  split
  · rename_i here
    subst here
    simp only [beq_self_eq_true, Bool.true_and]
    exact Sorted.filter_key_eq (tended.sound.site siteFound).ascending
      identifier
  · rename_i elsewhere
    exact List.filter_eq_nil_iff.mpr fun _ _ => by simp [Ne.symm elsewhere]

private theorem Tended.about_ended
    (tended : engine.Tended) {base : Path} {site : Site}
    (siteFound : Sorted.find? base engine.sites = some site)
    (leave : String × View → Option View) (path : Path)
    (identifier : String) :
    Signal.about path identifier
        (((site.filter fun entry => (leave entry).isNone).map
          (·.2.query)).map Signal.stop) =
      if path = base then
        Signal.ofLeaving (fun view => leave (identifier, view))
          (Sorted.find? identifier site)
      else [] := by
  rw [Signal.about, List.map_map, List.filter_map]
  change ((site.filter _).filter fun entry =>
    entry.2.query.isAt path identifier).map _ = _
  rw [List.filter_filter, List.filter_congr fun _ _ => Bool.and_comm _ _,
    ← List.filter_filter, tended.filter_isAt siteFound]
  split
  · cases Sorted.find? identifier site with
    | none => rfl
    | some view =>
        cases left : leave (identifier, view) with
        | none => simp [Signal.ofLeaving, left]
        | some _ => simp [Signal.ofLeaving, left]
  · rfl

theorem Departs.tended
    {leave : Path → String → View → Option View} {next : Engine}
    (departs : engine.Departs leave next) (tended : engine.Tended)
    (keeps : ∀ path identifier view rest, view.Attended →
      leave path identifier view = some rest →
        rest.Attended ∧ rest.query = view.query) :
    next.Tended := by
  have origin {path : Path} {identifier : String} {rest : View}
      (found : next.sites.lookup? path identifier = some rest) :
      rest.Attended ∧ rest.query.identifier = identifier := by
    rw [departs.views] at found
    obtain ⟨view, isView, left⟩ := Option.bind_eq_some_iff.mp found
    obtain ⟨attended, query⟩ := keeps path identifier view rest
      (tended.attended path identifier view isView) left
    rw [query]
    exact ⟨attended, tended.named path identifier view isView⟩
  exact ⟨departs.sound, fun _ _ _ found => (origin found).2,
    departs.inhabited, fun _ _ _ found => (origin found).1⟩

/-- What a listener leaves that is detached from one site. -/
def leaveSite? (base : Path) (identifier? : Option String)
    (listener : ListenerId) (path : Path) (identifier : String)
    (view : View) : Option View :=
  if path = base then Site.leave? identifier? listener (identifier, view)
  else some view

private theorem leaveSite?_keeps
    {base : Path} {identifier? : Option String} {listener : ListenerId}
    {view rest : View} (attended : view.Attended)
    (left : leaveSite? base identifier? listener path identifier view =
      some rest) :
    rest.Attended ∧ rest.query = view.query := by
  unfold leaveSite? Site.leave? at left
  split at left
  · split at left
    · exact attended.without? left
    · cases left
      exact ⟨attended, rfl⟩
  · cases left
    exact ⟨attended, rfl⟩

/-- Nobody leaves. -/
theorem Tended.departs_refl
    (tended : engine.Tended)
    {leave : Path → String → View → Option View}
    (still : ∀ path identifier view,
      engine.sites.lookup? path identifier = some view →
        leave path identifier view = some view) :
    engine.Departs leave engine := by
  refine ⟨tended.sound, tended.inhabited, fun path identifier => ?_,
    [], (List.append_nil _).symm, fun path identifier => ?_⟩
  · cases found : engine.sites.lookup? path identifier with
    | none => rfl
    | some view => exact (still path identifier view found).symm
  · cases found : engine.sites.lookup? path identifier with
    | none => rfl
    | some view =>
        rw [Signal.ofLeaving, still path identifier view found]
        rfl

private theorem lookup?_release
    (sound : engine.sites.Sound) (base : Path) (site : Site)
    (ended : List Query) (path : Path) (identifier : String) :
    (engine.release base site ended).sites.lookup? path identifier =
      if path = base then Sorted.find? identifier site
      else engine.sites.lookup? path identifier := by
  rw [release, Sites.lookup?_eq_find?, Sites.lookup?_eq_find?]
  dsimp only
  by_cases here : path = base
  · subst here
    rw [if_pos rfl]
    split
    · rename_i empty
      rw [Sorted.find?_erase_self sound.ascending,
        List.isEmpty_iff.mp empty]
      rfl
    · rw [Sorted.find?_insert_self, Option.getD_some]
  · rw [if_neg here]
    split
    · rw [Sorted.find?_erase_of_ne here sound.ascending]
    · rw [Sorted.find?_insert_of_ne _ here]

private theorem Tended.inhabited_release
    (tended : engine.Tended) (base : Path) (site : Site)
    (ended : List Query) :
    ∀ entry ∈ (engine.release base site ended).sites, entry.2 ≠ [] := by
  intro entry member
  rw [release] at member
  dsimp only at member
  split at member
  · exact tended.inhabited entry
      ((Sites.erase_sublist base engine.sites).subset member)
  · rename_i someone
    rcases Sorted.mem_of_mem_insert member with rfl | old
    · exact fun nobody => someone (List.isEmpty_iff.mpr nobody)
    · exact tended.inhabited entry old

private theorem departs_detach
    (tended : engine.Tended) (base : Path)
    (identifier? : Option String) (listener : ListenerId) :
    engine.Departs (leaveSite? base identifier? listener)
      (engine.detach base identifier? listener).2 := by
  have sound :=
    (narrows_detach tended.sound base identifier? listener).sound
  cases siteFound : Sorted.find? base engine.sites with
  | none =>
      rw [detach, siteFound]
      refine tended.departs_refl fun path identifier view found => ?_
      refine if_neg ?_
      rintro rfl
      rw [Sites.lookup?_eq_find?, siteFound] at found
      cases found
  | some site =>
      have attended : ∀ entry ∈ site, entry.2.Attended :=
        fun entry member => tended.attended _ _ _
          (tended.view_of_mem siteFound member)
      obtain ⟨ended, left⟩ :=
        Site.unregister_eq identifier? listener attended
      have detached :
          (engine.detach base identifier? listener).2 =
            engine.release base
              (Site.unregister identifier? listener site).2.2
              (Site.unregister identifier? listener site).1 := by
        rw [detach, siteFound]
      rw [detached] at sound ⊢
      generalize Site.unregister identifier? listener site = outcome
        at ended left sound ⊢
      obtain ⟨queries, _, rest⟩ := outcome
      dsimp only at ended left sound ⊢
      have ascending := (tended.sound.site siteFound).ascending
      have here (identifier : String) :
          Sorted.find? identifier rest =
            (Sorted.find? identifier site).bind fun view =>
              Site.leave? identifier? listener (identifier, view) := by
        rw [left, Sorted.find?_filterMap _ ascending]
      refine ⟨sound, tended.inhabited_release base rest queries,
        fun path identifier => ?_, _, rfl, fun path identifier => ?_⟩
      · rw [lookup?_release tended.sound, here]
        split
        · rename_i isHere
          subst isHere
          rw [Sites.lookup?_eq_find?, siteFound, Option.getD_some]
          exact Option.bind_congr fun view _ => (if_pos rfl).symm
        · rename_i elsewhere
          cases engine.sites.lookup? path identifier with
          | none => rfl
          | some view => exact (if_neg elsewhere).symm
      · rw [ended, tended.about_ended siteFound]
        split
        · rename_i isHere
          subst isHere
          rw [Sites.lookup?_eq_find?, siteFound, Option.getD_some]
          refine congrArg (Signal.ofLeaving · _) (funext fun view => ?_)
          exact (if_pos rfl).symm
        · rename_i elsewhere
          cases engine.sites.lookup? path identifier with
          | none => rfl
          | some view =>
              rw [Signal.ofLeaving, leaveSite?, if_neg elsewhere]

theorem departs_unregister
    (tended : engine.Tended) (query : Query) (listener : ListenerId) :
    engine.Departs
      (fun path identifier => View.leftBy?
        ((Call.unregister query listener).leaver? path identifier))
      (engine.unregister query listener).2 := by
  refine (departs_detach tended _ _ _).congr
    fun path identifier view _ => ?_
  rw [leaveSite?, Call.leaver?, Query.isAt]
  by_cases here : path = query.path
  · subst here
    rw [if_pos rfl, Site.leave?, beq_self_eq_true, Bool.true_and]
    cases named : query.identifier == identifier with
    | false => simp [View.leftBy?, named]
    | true => simp [View.leftBy?, named]
  · rw [if_neg here, if_neg (by simp [Ne.symm here])]
    rfl

private theorem departs_detachAll
    (listener : ListenerId) {paths : List Path} (distinct : paths.Nodup)
    (tended : engine.Tended) (found : Bool) :
    engine.Departs
      (fun path _ view =>
        if path ∈ paths then view.without? listener else some view)
      (paths.foldl
        (fun (reached : Bool × Engine) path =>
          ((reached.1 || (reached.2.detach path none listener).1),
            (reached.2.detach path none listener).2))
        (found, engine)).2 := by
  -- The sites are distinct, so whoever stays at one of them is not asked again later.
  induction paths generalizing engine found with
  | nil => exact tended.departs_refl fun _ _ _ _ => rfl
  | cons base rest inductionHypothesis =>
      obtain ⟨notLater, restDistinct⟩ := List.nodup_cons.mp distinct
      have first := departs_detach tended base none listener
      have middle := first.tended tended
        fun _ _ _ _ attended => leaveSite?_keeps attended
      refine (first.trans (inductionHypothesis restDistinct middle _)
        fun path identifier view rest found left =>
          (leaveSite?_keeps (tended.attended path identifier view found)
            left).2).congr fun path identifier view _ => ?_
      by_cases here : path = base
      · subst here
        rw [if_pos List.mem_cons_self, leaveSite?, if_pos rfl]
        change view.without? listener = (view.without? listener).bind _
        rw [Option.bind_congr fun view _ => if_neg notLater,
          Option.bind_fun_some]
      · rw [leaveSite?, if_neg here, Option.bind_some]
        simp [here]

theorem departs_removeListener
    (tended : engine.Tended) (listener : ListenerId) :
    engine.Departs (fun _ _ view => view.without? listener)
      (engine.removeListener listener).2 := by
  have distinct := Sorted.nodup_keys tended.sound.ascending
  refine (departs_detachAll listener distinct tended false).congr
    fun path identifier view found => ?_
  refine (if_pos ?_).symm
  obtain ⟨site, siteFound, _⟩ := Sites.lookup?_eq_some_iff.mp found
  exact List.mem_map_of_mem (Sorted.mem_of_find?_eq_some siteFound)

end Engine

end Replica
