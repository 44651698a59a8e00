import Replica.Proofs.View.Basic

/-!
# What a listener can know

A listener can keep a map of its own and enter what it is told into it. What it is told when its
view takes an operation names every child that has changed, and tells the truth about each child
that it names. So the map is right about all children that were ever named, and about no other
child that the view showed before the listener came.
-/

namespace Replica

namespace Event

/-- The children that a listener knows after an event: it puts in what has appeared or changed
and takes out what has gone. -/
def enter (known : List (Key × Node)) (event : Event) :
    List (Key × Node) :=
  match event.kind, event.key? with
  | .added, some key => Sorted.insert key event.node known
  | .changed, some key => Sorted.insert key event.node known
  | .removed, some key => Sorted.erase key known
  | _, _ => known

/-- The children that a listener knows after all events. -/
def mirror (events : List Event) : List (Key × Node) :=
  events.foldl enter []

/-- An event that tells whether there is a child under the key, and which one. -/
def Announces (event : Event) (key : Key) : Prop :=
  event.key? = some key ∧
    event.kind ∈ [ChangeKind.added, ChangeKind.changed, ChangeKind.removed]

def announced? (event : Event) : Option Node :=
  if event.kind = .removed then none else some event.node

/-! ## Entering events -/

private theorem ascending_enter
    {known : List (Key × Node)} (ascending : Sorted.Ascending known)
    (event : Event) : Sorted.Ascending (enter known event) := by
  unfold enter
  split
  · exact Sorted.ascending_insert _ ascending
  · exact Sorted.ascending_insert _ ascending
  · exact Sorted.ascending_erase ascending
  · exact ascending

private theorem ascending_mirror (events : List Event) :
    Sorted.Ascending (mirror events) := by
  have general (known : List (Key × Node))
      (ascending : Sorted.Ascending known) :
      Sorted.Ascending (events.foldl enter known) := by
    induction events generalizing known with
    | nil => exact ascending
    | cons event rest inductionHypothesis =>
        exact inductionHypothesis _ (ascending_enter ascending event)
  exact general [] List.Pairwise.nil

private theorem find?_enter_of_announces
    {known : List (Key × Node)} (ascending : Sorted.Ascending known)
    {event : Event} {key : Key} (announces : event.Announces key) :
    Sorted.find? key (enter known event) = event.announced? := by
  obtain ⟨named, kind⟩ := announces
  unfold enter announced?
  rw [named]
  simp only [List.mem_cons, List.not_mem_nil, or_false] at kind
  rcases kind with isKind | isKind | isKind
  · rw [isKind]
    exact Sorted.find?_insert_self _ _ _
  · rw [isKind]
    exact Sorted.find?_insert_self _ _ _
  · rw [isKind]
    exact Sorted.find?_erase_self ascending

private theorem find?_enter_of_silent
    {known : List (Key × Node)} (ascending : Sorted.Ascending known)
    {event : Event} {key : Key} (silent : ¬ event.Announces key) :
    Sorted.find? key (enter known event) = Sorted.find? key known := by
  have other {name : Key} (named : event.key? = some name)
      (kind : event.kind ∈
        [ChangeKind.added, ChangeKind.changed, ChangeKind.removed]) :
      key ≠ name := by
    rintro rfl
    exact silent ⟨named, kind⟩
  unfold enter
  split
  · rename_i isKind named
    exact Sorted.find?_insert_of_ne _
      (other named (by rw [isKind]; decide)) _
  · rename_i isKind named
    exact Sorted.find?_insert_of_ne _
      (other named (by rw [isKind]; decide)) _
  · rename_i isKind named
    exact Sorted.find?_erase_of_ne
      (other named (by rw [isKind]; decide)) ascending
  · rfl

/-- What holds of everything that is announced about a child holds of the child in the map, if it
held before or anything is announced. -/
theorem find?_foldl_enter
    {holds : Option Node → Prop} {key : Key} {events : List Event}
    (told : ∀ event ∈ events, event.Announces key →
      holds event.announced?)
    {known : List (Key × Node)} (ascending : Sorted.Ascending known)
    (start : holds (Sorted.find? key known) ∨
      ∃ event ∈ events, event.Announces key) :
    holds (Sorted.find? key (events.foldl enter known)) := by
  induction events generalizing known with
  | nil =>
      rcases start with before | ⟨_, member, _⟩
      · exact before
      · cases member
  | cons event rest inductionHypothesis =>
      obtain ⟨first, others⟩ := List.forall_mem_cons.mp told
      refine inductionHypothesis others (ascending_enter ascending event) ?_
      by_cases announces : event.Announces key
      · rw [find?_enter_of_announces ascending announces]
        exact Or.inl (first announces)
      · rw [find?_enter_of_silent ascending announces]
        refine start.imp_right ?_
        rintro ⟨other, member, otherAnnounces⟩
        rcases List.mem_cons.mp member with rfl | later
        · exact absurd otherAnnounces announces
        · exact ⟨other, later, otherAnnounces⟩

private theorem find?_foldl_enter_of_silent
    {key : Key} {events : List Event}
    (silent : ∀ event ∈ events, ¬ event.Announces key)
    {known : List (Key × Node)} (ascending : Sorted.Ascending known) :
    Sorted.find? key (events.foldl enter known) =
      Sorted.find? key known :=
  @find?_foldl_enter (· = Sorted.find? key known) key events
    (fun event member announces => absurd announces (silent event member))
    known ascending (Or.inl rfl)

end Event

/-! ## True entries -/

/-- What a map has under a key is what there is. -/
inductive Pictures (child : Node) : Option Node → Prop where
  | absent (nothing : child ≈ .empty) : Pictures child none
  | present {node : Node} (present : child.isEmpty = false)
      (same : node ≈ child) : Pictures child (some node)

theorem Pictures.congr
    {child other : Node} {entry : Option Node}
    (pictures : Pictures child entry) (equal : child ≈ other) :
    Pictures other entry := by
  cases pictures with
  | absent nothing =>
      exact .absent (Setoid.trans (Setoid.symm equal) nothing)
  | present present same =>
      refine .present ?_ (Setoid.trans same equal)
      rw [← Node.isEmpty_congr equal]
      exact present

/-- A map that has what there is under every key has the same children. -/
theorem sameAll_of_pictures
    {known : List (Key × Node)} (ascending : Sorted.Ascending known)
    {node : Node} (canonical : node.Canonical)
    (reserved : ∀ key : Key, key.isPriority = true →
      Sorted.find? key known = none)
    (pictures : ∀ key : Key, key.isPriority = false →
      Pictures (node.child key) (Sorted.find? key known)) :
    Node.sameAll known node.children = true := by
  refine Node.sameAll_iff.mpr (Sorted.forall₂_of_find?
    (fun a b => a.same b = true) ascending canonical.children_ascending
    fun key => ?_)
  by_cases isReserved : key.isPriority = true
  · rw [reserved key isReserved]
    cases found : Sorted.find? key node.children with
    | none => exact Option.Rel.none
    | some child =>
        have unreserved :=
          canonical.unreserved_of_mem_children
            (Sorted.mem_of_find?_eq_some found)
        rw [unreserved] at isReserved
        cases isReserved
  · have unreserved : key.isPriority = false := by
      simpa using isReserved
    have pictured := pictures key unreserved
    rw [Node.find?_children canonical unreserved]
    generalize Sorted.find? key known = entry at pictured
    cases pictured with
    | absent nothing =>
        rw [Node.isEmpty_congr nothing]
        exact Option.Rel.none
    | present present same =>
        rw [present]
        exact Option.Rel.some same

private theorem pictures_of_sameAll
    {known : List (Key × Node)} {node : Node} (canonical : node.Canonical)
    (same : Node.sameAll known node.children = true)
    {key : Key} (unreserved : key.isPriority = false) :
    Pictures (node.child key) (Sorted.find? key known) := by
  have related :
      Option.Rel (fun a b => a.same b = true) (Sorted.find? key known)
        (Sorted.find? key node.children) :=
    Sorted.find?_rel_of_forall₂ key (Node.sameAll_iff.mp same)
  rw [Node.find?_children canonical unreserved] at related
  generalize Sorted.find? key known = entry at related
  cases absent : (node.child key).isEmpty with
  | true =>
      rw [absent] at related
      cases related with
      | none =>
          exact .absent
            (Node.equiv_empty_of_isEmpty (canonical.child key) absent)
  | false =>
      rw [absent] at related
      cases related with
      | some equal => exact .present absent equal

/-! ## What is told when an operation is applied -/

namespace Change

theorem mem_arrange
    {index : Index} {changes : List Change} {change : Change} :
    change ∈ arrange index changes ↔
      (change ∈ changes ∧ change.isVoid = false) ∨
        ∃ told ∈ changes, told.isVoid = false ∧
          told.move? index = some change := by
  have anyKind : ∀ kind : ChangeKind, kind ∈ ChangeKind.all := by
    intro kind
    cases kind <;> decide
  unfold arrange
  simp only [List.mem_flatMap, List.mem_mergeSort, List.mem_filter,
    List.mem_append, List.mem_filterMap, beq_iff_eq, Bool.not_eq_true',
    and_assoc]
  constructor
  · rintro ⟨_, _, member, _⟩
    exact member
  · exact fun member => ⟨change.kind, anyKind _, member, rfl⟩

/-- An event announces what a change of a child says, and never a move. -/
theorem mem_of_announces
    {index : Index} {changes : List Change} {path : Path} {snap : Node}
    {registrations : List Registration} {event : Event}
    (member : event ∈
      Event.ofChanges path index changes snap registrations)
    {key : Key} (announces : event.Announces key) :
    ∃ change ∈ changes, event.kind = change.kind ∧
      event.key? = change.key? ∧ event.node = change.node := by
  obtain ⟨change, arranged, told⟩ := List.mem_flatMap.mp member
  obtain ⟨registration, _, rfl⟩ := List.mem_map.mp told
  rcases mem_arrange.mp arranged with ⟨isChange, _⟩ | ⟨other, _, _, moves⟩
  · exact ⟨change, isChange, rfl, rfl, rfl⟩
  · have isMove : change.kind = .moved := by
      cases other with
      | changed name node old =>
          unfold move? at moves
          dsimp only at moves
          split at moves
          · cases moves
            rfl
          · cases moves
      | _ => cases moves
    have kind := announces.2
    change change.kind ∈ _ at kind
    rw [isMove] at kind
    exact absurd kind (by decide)

end Change

namespace View

variable {view : View} {caches : Caches} {ledger : Ledger}
  (accounts : Caches.Accounts view.caches caches ledger)

include accounts

/-- What is announced is true of the new children. -/
theorem pictures_of_tidings
    {event : Event} (member : event ∈ view.tidings caches ledger)
    {key : Key} (announces : event.Announces key) :
    key.isPriority = false ∧
      Pictures (caches.visible.node.child key) event.announced? := by
  obtain ⟨change, isChange, kind, named, node⟩ :=
    Change.mem_of_announces member announces
  have isKey : change.key? = some key := named.symm.trans announces.1
  have inLedger : change ∈ ledger.changes := by
    rcases List.mem_append.mp isChange with inLedger | ofValue
    · exact inLedger
    · unfold Change.ofValue at ofValue
      split at ofValue
      · split at ofValue
        · cases List.mem_singleton.mp ofValue
          cases isKey
        · cases ofValue
      · cases ofValue
  obtain ⟨⟨name, _⟩, entry, rfl⟩ := List.mem_map.mp inLedger
  have found := Sorted.find?_of_mem accounts.tracks.ascending entry
  have accurate := accounts.tracks.accurate name _ found
  have isName := accurate.key?_eq
  rw [isKey] at isName
  cases isName
  refine ⟨accounts.tracks.unreserved _ entry, ?_⟩
  unfold Event.announced?
  rw [kind, node]
  cases accurate with
  | added _ present now => exact .present present now
  | removed _ absent _ => exact .absent absent
  | changed _ present now _ => exact .present present now

/-- Every child that has changed is announced to everyone who wants to know. -/
theorem announced_of_changed
    {registration : Registration}
    (listening : registration ∈ view.registrations)
    (wants : ∀ kind ∈ ChangeKind.ofChildren,
      registration.wants kind = true)
    {key : Key} (unreserved : key.isPriority = false)
    (different : ¬ view.caches.visible.node.child key ≈
      caches.visible.node.child key) :
    ∃ event ∈ view.tidings caches ledger,
      event.listener = registration.id ∧ event.Announces key := by
  have recorded : ∃ change, Sorted.find? key ledger = some change := by
    cases found : Sorted.find? key ledger with
    | none =>
        exact absurd (accounts.tracks.still key unreserved found) different
    | some change => exact ⟨change, rfl⟩
  obtain ⟨change, found⟩ := recorded
  have accurate := accounts.tracks.accurate key change found
  have inLedger : change ∈ ledger.changes :=
    List.mem_map.mpr ⟨_, Sorted.mem_of_find?_eq_some found, rfl⟩
  have real : change.isVoid = false ∧
      change.kind ∈
        [ChangeKind.added, ChangeKind.changed, ChangeKind.removed] ∧
      change.kind ∈ ChangeKind.ofChildren := by
    cases accurate with
    | added _ _ _ =>
        exact ⟨rfl, by simp [Change.kind],
          by simp [Change.kind, ChangeKind.ofChildren]⟩
    | removed _ _ _ =>
        exact ⟨rfl, by simp [Change.kind],
          by simp [Change.kind, ChangeKind.ofChildren]⟩
    | changed _ _ now was =>
        refine ⟨?_, by simp [Change.kind],
          by simp [Change.kind, ChangeKind.ofChildren]⟩
        refine Bool.eq_false_iff.mpr fun isSame => different ?_
        exact Setoid.trans (Setoid.symm was)
          (Setoid.trans (Setoid.symm isSame) now)
  refine ⟨_, List.mem_flatMap.mpr ⟨change, Change.mem_arrange.mpr
    (Or.inl ⟨List.mem_append_left _ inLedger, real.1⟩),
    List.mem_map.mpr ⟨registration, List.mem_filter.mpr ⟨listening,
      wants _ real.2.2⟩, rfl⟩⟩, rfl, accurate.key?_eq, real.2.1⟩

end View

/-! ## Following a view -/

/-- What a listener was told since it came to a view that showed the first node, and what the
view shows now: the map is right about everything that was announced, and all else has stayed. -/
structure Follows (first : Node) (events : List Event) (now : Node) :
    Prop where
  unreserved : ∀ event ∈ events, ∀ key, event.Announces key →
    key.isPriority = false
  told : ∀ key : Key, key.isPriority = false →
    (∃ event ∈ events, event.Announces key) →
    Pictures (now.child key) (Sorted.find? key (Event.mirror events))
  untold : ∀ key : Key, key.isPriority = false →
    (∀ event ∈ events, ¬ event.Announces key) →
    first.child key ≈ now.child key

variable {first now : Node} {events : List Event}

/-- The map has all children exactly if every child that was there first has been announced. -/
theorem Follows.sameAll_mirror_iff
    (follows : Follows first events now)
    (firstCanonical : first.Canonical) (canonical : now.Canonical) :
    Node.sameAll (Event.mirror events) now.children = true ↔
      ∀ entry ∈ first.children,
        ∃ event ∈ events, event.Announces entry.1 := by
  have silentEntry {key : Key}
      (silent : ∀ event ∈ events, ¬ event.Announces key) :
      Sorted.find? key (Event.mirror events) = none :=
    Event.find?_foldl_enter_of_silent silent List.Pairwise.nil
  constructor
  · intro same entry member
    by_contra unannounced
    have silent : ∀ event ∈ events, ¬ event.Announces entry.1 :=
      fun event eventMember announces =>
        unannounced ⟨event, eventMember, announces⟩
    have unreserved := firstCanonical.unreserved_of_mem_children member
    have pictured := pictures_of_sameAll canonical same unreserved
    rw [silentEntry silent] at pictured
    have stayed := follows.untold entry.1 unreserved silent
    rw [Node.child_of_mem_children firstCanonical member] at stayed
    cases pictured with
    | absent nothing =>
        exact Ledger.not_present_of_absent (Setoid.trans stayed nothing)
          (firstCanonical.nonempty_of_mem_children member)
  · intro announced
    refine sameAll_of_pictures (Event.ascending_mirror events) canonical
      ?_ ?_
    · intro key reserved
      refine silentEntry fun event member announces => ?_
      rw [follows.unreserved event member key announces] at reserved
      cases reserved
    · intro key unreserved
      by_cases isTold : ∃ event ∈ events, event.Announces key
      · exact follows.told key unreserved isTold
      · have silent : ∀ event ∈ events, ¬ event.Announces key :=
          fun event member announces => isTold ⟨event, member, announces⟩
        have absent : (first.child key).isEmpty = true := by
          by_contra present
          exact isTold (announced _
            (Node.mem_children_of_present firstCanonical unreserved
              (by simpa using present)))
        rw [silentEntry silent]
        refine .absent (Setoid.trans
          (Setoid.symm (follows.untold key unreserved silent)) ?_)
        exact Node.equiv_empty_of_isEmpty (firstCanonical.child key) absent

/-- A listener keeps following a view when it hears what the view tells. -/
theorem Follows.append
    {view : View} {caches : Caches} {ledger : Ledger}
    (follows : Follows first events view.caches.visible.node)
    (accounts : Caches.Accounts view.caches caches ledger)
    {registration : Registration}
    (listening : registration ∈ view.registrations)
    (wants : ∀ kind ∈ ChangeKind.ofChildren,
      registration.wants kind = true)
    {heard : List Event}
    (hears : ∀ event, event ∈ heard ↔
      event ∈ view.tidings caches ledger ∧
        event.listener = registration.id) :
    Follows first (events ++ heard) caches.visible.node := by
  have ascending := Event.ascending_mirror events
  have split : Event.mirror (events ++ heard) =
      heard.foldl Event.enter (Event.mirror events) :=
    List.foldl_append
  have pictured {event : Event} (member : event ∈ heard) {key : Key}
      (announces : event.Announces key) :=
    View.pictures_of_tidings accounts ((hears event).mp member).1 announces
  have stays {key : Key} (unreserved : key.isPriority = false)
      (silent : ∀ event ∈ heard, ¬ event.Announces key) :
      view.caches.visible.node.child key ≈
        caches.visible.node.child key := by
    by_contra different
    obtain ⟨event, member, isOurs, announces⟩ :=
      View.announced_of_changed accounts listening wants unreserved
        different
    exact silent event ((hears event).mpr ⟨member, isOurs⟩) announces
  constructor
  · intro event member key announces
    rcases List.mem_append.mp member with old | new
    · exact follows.unreserved event old key announces
    · exact (pictured new announces).1
  · intro key unreserved isTold
    rw [split]
    by_cases fresh : ∃ event ∈ heard, event.Announces key
    · exact Event.find?_foldl_enter
        (fun event member announces => (pictured member announces).2)
        ascending (Or.inr fresh)
    · have silent : ∀ event ∈ heard, ¬ event.Announces key :=
        fun event member announces => fresh ⟨event, member, announces⟩
      have before : ∃ event ∈ events, event.Announces key := by
        obtain ⟨event, member, announces⟩ := isTold
        rcases List.mem_append.mp member with old | new
        · exact ⟨event, old, announces⟩
        · exact absurd announces (silent event new)
      rw [Event.find?_foldl_enter_of_silent silent ascending]
      exact (follows.told key unreserved before).congr
        (stays unreserved silent)
  · intro key unreserved silent
    refine Setoid.trans (follows.untold key unreserved fun event member =>
      silent event (List.mem_append_left heard member)) ?_
    exact stays unreserved fun event member =>
      silent event (List.mem_append_right events member)

/-- What a new listener is told first. -/
theorem follows_initialEvents
    {view : View} (canonical : view.caches.visible.node.Canonical)
    (registration : Registration) :
    Follows view.caches.visible.node (view.initialEvents registration)
      view.caches.visible.node := by
  have pictured {event : Event}
      (member : event ∈ view.initialEvents registration) {key : Key}
      (announces : event.Announces key) :
      key.isPriority = false ∧
        Pictures (view.caches.visible.node.child key)
          event.announced? := by
    unfold View.initialEvents at member
    cases known : view.caches.visible.complete? with
    | none =>
        rw [known] at member
        cases member
    | some snap =>
        have isNode := Cache.eq_node_of_mem_complete? known
        rw [known] at member
        subst isNode
        obtain ⟨change, isChange, kind, named, node⟩ :=
          Change.mem_of_announces member announces
        rw [announces.1] at named
        rcases List.mem_append.mp isChange with isAdded | isValue
        · obtain ⟨⟨name, child⟩, entry, rfl⟩ := List.mem_map.mp isAdded
          cases named
          refine ⟨canonical.unreserved_of_mem_children entry, ?_⟩
          have found := Node.child_of_mem_children canonical entry
          unfold Event.announced?
          rw [kind, node]
          refine .present ?_ ?_
          · rw [found]
            exact canonical.nonempty_of_mem_children entry
          · rw [found]
            exact Setoid.refl _
        · cases List.mem_singleton.mp isValue
          cases named
  constructor
  · exact fun event member key announces => (pictured member announces).1
  · intro key unreserved isTold
    exact Event.find?_foldl_enter
      (fun event member announces => (pictured member announces).2)
      List.Pairwise.nil (Or.inr isTold)
  · exact fun _ _ _ => Setoid.refl _

/-- A complete view tells a new listener about every child. -/
theorem announced_of_complete
    {view : View} (complete : view.caches.visible.complete = true)
    {registration : Registration}
    (wants : ∀ kind ∈ ChangeKind.ofChildren,
      registration.wants kind = true) :
    ∀ entry ∈ view.caches.visible.node.children,
      ∃ event ∈ view.initialEvents registration,
        event.Announces entry.1 := by
  intro entry member
  have wanted : registration.wants .added = true :=
    wants .added (by decide)
  unfold View.initialEvents
  rw [Cache.complete?_of_complete complete]
  refine ⟨_, List.mem_flatMap.mpr ⟨.added entry.1 entry.2,
    Change.mem_arrange.mpr (Or.inl ⟨List.mem_append_left _
      (List.mem_map.mpr ⟨entry, member, rfl⟩), rfl⟩),
    List.mem_map.mpr ⟨registration, List.mem_filter.mpr
      ⟨List.mem_singleton_self _, wanted⟩, rfl⟩⟩, rfl, by
        simp [Change.kind]⟩

end Replica
