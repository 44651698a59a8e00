import Replica.Proofs.Filter
import Replica.Proofs.Operation
import Replica.Proofs.Vantage

/-!
# The caches of a view

Applying an operation to the caches of a view never fails. The visible snapshot afterwards is
given as a plain function of the caches before, and the ledger tells exactly how its children
differ from those before.
-/

namespace Replica

namespace Cache

theorem complete?_of_complete
    {cache : Cache} (complete : cache.complete = true) :
    cache.complete? = some cache.node := by
  unfold complete?
  rw [complete]
  rfl

theorem complete?_of_incomplete
    {cache : Cache} (incomplete : cache.complete = false) :
    cache.complete? = none := by
  unfold complete?
  rw [incomplete]
  rfl

@[simp]
theorem isSome_complete? (cache : Cache) :
    cache.complete?.isSome = cache.complete := by
  cases known : cache.complete with
  | true => rw [complete?_of_complete known, Option.isSome_some]
  | false => rw [complete?_of_incomplete known, Option.isSome_none]

theorem eq_node_of_mem_complete?
    {cache : Cache} {node : Node} (known : node ∈ cache.complete?) :
    node = cache.node := by
  cases complete : cache.complete with
  | true =>
      rw [complete?_of_complete complete] at known
      exact (Option.some.inj known).symm
  | false =>
      rw [complete?_of_incomplete complete] at known
      cases known

private theorem canonical_of_mem_complete?
    {cache : Cache} (canonical : cache.node.Canonical) :
    ∀ node ∈ cache.complete?, node.Canonical := by
  intro node known
  rw [eq_node_of_mem_complete? known]
  exact canonical

end Cache

namespace Progress

/-- The snapshot under computation is canonical, and the ledger leads to it. -/
structure Sound (start : Node) (progress : Progress) : Prop where
  canonical : progress.node.Canonical
  tracks : Ledger.Tracks start.child progress.node.child progress.ledger

/-- A sound edit can be made. -/
theorem Sound.take
    {start : Node} {progress : Progress} (sound : Sound start progress)
    {edit : Edit} (editSound : Edit.Sound progress.node edit) :
    ∃ ledger, progress.take edit = .ok ⟨edit.node, ledger⟩ ∧
      Sound start ⟨edit.node, ledger⟩ := by
  obtain ⟨ledger, recorded, tracks⟩ :=
    sound.tracks.recordAll editSound.leads
  refine ⟨ledger, ?_, ⟨editSound.canonical, tracks⟩⟩
  unfold Progress.take
  rw [recorded]
  rfl

private theorem take_unchanged (progress : Progress) :
    progress.take (.unchanged progress.node) = .ok progress := by
  unfold Progress.take Edit.unchanged
  dsimp only
  rw [Ledger.recordAll_nil]
  rfl

end Progress

namespace Caches

structure Canonical (caches : Caches) : Prop where
  visible : caches.visible.node.Canonical
  server : caches.server.node.Canonical

/-! ## The data of the server -/

/-- What becomes of the caches when data of the server is replaced. -/
inductive Overwritten (filter : Filter) (caches : Caches) :
    Path → Node → Caches → Prop where
  | whole (path : Path) (node : Node) :
      Overwritten filter caches path node
        { caches with
          server :=
            ⟨filter.select (caches.server.node.setDescendant path node),
              caches.server.complete || path.isEmpty, filter.drops⟩ }
  | ignored {key : Key} {rest : Path} {node : Node} :
      Overwritten filter caches (key :: rest) node caches
  | priority {key : Key} {rest : Path} {node : Node}
      (priority : Option Priority) :
      Overwritten filter caches (key :: rest) node
        { caches with
          server :=
            ⟨filter.setPriority caches.server.node priority,
              caches.server.complete || false, filter.drops⟩ }
  | child {key : Key} {rest : Path} {node : Node}
      (unreserved : key.isPriority = false) :
      Overwritten filter caches (key :: rest) node
        { caches with
          server :=
            ⟨(filter.setChild caches.server.node key
                ((caches.server.node.child key).setDescendant rest node)
                .empty).node,
              caches.server.complete || false, filter.drops⟩ }

theorem overwritten_overwriteServer
    (filter : Filter) (caches : Caches) (path : Path) (node : Node) :
    Overwritten filter caches path node
      (overwriteServer filter caches path node) := by
  unfold overwriteServer
  cases path with
  | nil => exact .whole [] node
  | cons key rest =>
      dsimp only
      split
      · exact .whole (key :: rest) node
      · split
        · exact .ignored
        · split
          · exact .priority _
          · rename_i unreserved
            exact .child (by simpa using unreserved)

theorem canonical_overwriteServer
    {caches : Caches} (canonical : caches.server.node.Canonical)
    {node : Node} (nodeCanonical : node.Canonical)
    (filter : Filter) (path : Path) :
    (overwriteServer filter caches path node).server.node.Canonical := by
  have overwritten := overwritten_overwriteServer filter caches path node
  generalize overwriteServer filter caches path node = next
    at overwritten ⊢
  cases overwritten with
  | whole =>
      exact Filter.canonical_select
        (canonical.setDescendant nodeCanonical path) filter
  | ignored => exact canonical
  | priority _ => exact Filter.canonical_setPriority canonical filter _
  | @child key rest _ unreserved =>
      exact (Filter.sound_setChild canonical
        ((canonical.child key).setDescendant nodeCanonical rest)
        Node.Canonical.empty unreserved filter).canonical

/-- Data below the location replaces a child or the priority, or is left out. -/
theorem overwriteServer_cons
    {filter : Filter} {caches : Caches}
    (noted : caches.server.filtered = filter.drops)
    (first : Key) (rest : Path) (node : Node) :
    overwriteServer filter caches (first :: rest) node =
      if !caches.server.knowsChild first && !rest.isEmpty then caches
      else
        let child := (caches.server.node.child first).setDescendant rest node
        { caches with
          server :=
            ⟨if first.isPriority then
                filter.setPriority caches.server.node
                  (child.value?.bind Priority.ofScalar?)
              else (filter.setChild caches.server.node first child .empty).node,
              caches.server.complete, filter.drops⟩ } := by
  have inStep : (filter.drops && !caches.server.filtered) = false := by
    rw [noted]
    exact Bool.and_not_self filter.drops
  unfold overwriteServer
  dsimp only
  rw [inStep, if_neg Bool.false_ne_true, List.isEmpty_cons, Bool.or_false]
  split
  · rename_i ignored
    exact (if_pos ignored).symm
  · rename_i heeded
    refine Eq.trans ?_ (if_neg heeded).symm
    split
    · rfl
    · rfl

private theorem visible_overwriteServer
    (filter : Filter) (caches : Caches) (path : Path) (node : Node) :
    (overwriteServer filter caches path node).visible = caches.visible := by
  have overwritten := overwritten_overwriteServer filter caches path node
  generalize overwriteServer filter caches path node = next
    at overwritten ⊢
  cases overwritten with
  | whole => rfl
  | ignored => rfl
  | priority _ => rfl
  | child _ => rfl

/-- The caches after nodes were replaced in the server's data, in the given order. -/
def learn (filter : Filter) (caches : Caches)
    (writes : List (Path × Node)) : Caches :=
  writes.foldl
    (fun all write => overwriteServer filter all write.1 write.2) caches

@[simp]
theorem learn_cons
    (filter : Filter) (caches : Caches) (write : Path × Node)
    (writes : List (Path × Node)) :
    learn filter caches (write :: writes) =
      learn filter (overwriteServer filter caches write.1 write.2) writes :=
  rfl

private theorem canonical_learn
    {caches : Caches} (canonical : caches.server.node.Canonical)
    {writes : List (Path × Node)}
    (writesCanonical : ∀ write ∈ writes, write.2.Canonical)
    (filter : Filter) :
    (learn filter caches writes).server.node.Canonical := by
  induction writes generalizing caches with
  | nil => exact canonical
  | cons write rest inductionHypothesis =>
      obtain ⟨first, others⟩ := List.forall_mem_cons.mp writesCanonical
      exact inductionHypothesis
        (canonical_overwriteServer canonical first filter write.1) others

private theorem visible_learn
    (filter : Filter) (caches : Caches) (writes : List (Path × Node)) :
    (learn filter caches writes).visible = caches.visible := by
  induction writes generalizing caches with
  | nil => rfl
  | cons write rest inductionHypothesis =>
      rw [learn_cons, inductionHypothesis, visible_overwriteServer]

private theorem mergeServer_eq_learn
    (filter : Filter) (caches : Caches) (path : Path) (nodes : Overlay) :
    mergeServer filter caches path nodes =
      learn filter caches (nodes.writesBelow path) := by
  unfold mergeServer learn Overlay.writesBelow
  rw [List.foldl_map]

theorem receive_of_incomplete
    (filter : Filter) (caches : Caches) {operation : Operation}
    (incomplete : operation.completes = false) :
    receive filter caches operation =
      learn filter caches operation.serverWrites := by
  cases operation with
  | overwrite source path node =>
      cases source with
      | user => rfl
      | server =>
          change overwriteServer filter caches path node =
            learn filter caches ((Overlay.ofNode node).writesBelow path)
          rw [Overlay.writesBelow_ofNode]
          rfl
  | merge source path nodes =>
      cases source with
      | user => rfl
      | server => exact mergeServer_eq_learn filter caches path nodes
  | acknowledge path rejected nodes =>
      cases rejected with
      | true => rfl
      | false => exact mergeServer_eq_learn filter caches path nodes
  | listenComplete path => cases incomplete

/-- An operation is received write by write; the end of the initial data only completes them. -/
theorem receive_eq
    (filter : Filter) (caches : Caches) (operation : Operation) :
    let learned := learn filter caches operation.serverWrites
    receive filter caches operation =
      { learned with
        server := { learned.server with
          complete := learned.server.complete ||
            (operation.completes && operation.path.isEmpty) } } := by
  cases completes : operation.completes with
  | false =>
      rw [receive_of_incomplete filter caches completes, Bool.false_and]
      simp only [Bool.or_false]
  | true =>
      cases operation with
      | listenComplete _ => rfl
      | overwrite _ _ _ => cases completes
      | merge _ _ _ => cases completes
      | acknowledge _ _ _ => cases completes

theorem canonical_receive
    {caches : Caches} (canonical : caches.server.node.Canonical)
    {operation : Operation} (valid : operation.Valid) (filter : Filter) :
    (receive filter caches operation).server.node.Canonical := by
  rw [receive_eq]
  exact canonical_learn canonical valid.canonical_of_mem_serverWrites filter

private theorem visible_receive
    (filter : Filter) (caches : Caches) (operation : Operation) :
    (receive filter caches operation).visible = caches.visible := by
  rw [receive_eq]
  exact visible_learn filter caches operation.serverWrites

/-! ## The visible data -/

/-- The edit by which the child under a key is computed anew. -/
def childEdit (filter : Filter) (server : Cache) (vantage : Vantage)
    (known node : Node) (key : Key) : Edit :=
  match vantage.child? key server with
  | some child => filter.setChild node key child known
  | none =>
    if node.hasChild key then filter.setChild node key .empty known
    else .unchanged node

/-- The edit by which a leaf is shown where the children have gone. -/
def leafEdit (filter : Filter) (server : Cache) (vantage : Vantage)
    (node : Node) : Edit :=
  if node.isEmpty then
    match server.complete? with
    | some data =>
      let whole := (vantage.node? (some data)).getD .empty
      if whole.isLeaf then filter.replace node whole else .unchanged node
    | none => .unchanged node
  else .unchanged node

/-- The snapshot after the children under some keys are computed anew. -/
def childrenAfter (filter : Filter) (server : Cache) (vantage : Vantage)
    (known node : Node) (keys : List Key) : Node :=
  keys.foldl
    (fun all key => (childEdit filter server vantage known all key).node)
    node

def visibleAfter (filter : Filter) (server : Cache) (vantage : Vantage)
    (ancestor? : Option Node) (node : Node) : Scope → Node
  | .all => filter.select (visibleNode server vantage)
  | .children keys =>
    (leafEdit filter server vantage
      (childrenAfter filter server vantage
        (vantage.known (ancestor?.or server.complete?)) node keys)).node

def after (filter : Filter) (caches : Caches) (operation : Operation)
    (vantage : Vantage) (ancestor? : Option Node) : Caches :=
  let server := (receive filter caches operation).server
  { visible :=
      ⟨visibleAfter filter server vantage ancestor? caches.visible.node
          operation.scope,
        server.complete || (vantage.shadow? []).isSome, filter.drops⟩
    server := server }

theorem childEdit_eq
    (filter : Filter) (server : Cache) (vantage : Vantage)
    (known node : Node) {key : Key} (unreserved : key.isPriority = false) :
    childEdit filter server vantage known node key =
      filter.setChild node key ((vantage.child? key server).getD .empty)
        known := by
  unfold childEdit
  cases vantage.child? key server with
  | some _ => rfl
  | none =>
      dsimp only [Option.getD_none]
      split
      · rfl
      · rename_i absent
        refine (Filter.setChild_of_shown ?_ known).symm
        rw [Node.child_of_not_hasChild unreserved (by simpa using absent),
          Filter.clip_empty]

private theorem refreshLeaf_eq
    (filter : Filter) (server : Cache) (vantage : Vantage)
    (progress : Progress) :
    refreshLeaf filter server vantage progress =
      progress.take (leafEdit filter server vantage progress.node) := by
  have unchanged := (Progress.take_unchanged progress).symm
  unfold refreshLeaf leafEdit
  split
  · cases server.complete? with
    | none => exact unchanged
    | some data =>
        dsimp only
        split
        · rfl
        · exact unchanged
  · exact unchanged

/-- Where the server's data is complete or a write covers the location, what is shown is the
writes over the server's data. -/
theorem visibleNode_of_known
    {vantage : Vantage} (sound : vantage.pending.Sound) {server : Cache}
    (known : (server.complete || (vantage.shadow? []).isSome) = true) :
    visibleNode server vantage =
      vantage.pending.laidOver vantage.path server.node := by
  unfold visibleNode
  cases covered : vantage.shadow? [] with
  | some written =>
      rw [Vantage.shadow?_nil] at covered
      exact (Pending.laidOver_of_node? sound covered server.node).symm
  | none =>
      rw [covered, Option.isSome_none, Bool.or_false] at known
      rw [Cache.complete?_of_complete known]
      dsimp only
      rw [Vantage.node?_some sound]
      rfl

section

variable {vantage : Vantage} (sound : vantage.pending.Sound)
  {server : Cache} (serverCanonical : server.node.Canonical)

include sound serverCanonical

/-- What is known at the location beforehand is canonical. -/
theorem canonical_known_or
    {ancestor? : Option Node}
    (ancestorCanonical : ∀ ancestor ∈ ancestor?, ancestor.Canonical) :
    (vantage.known (ancestor?.or server.complete?)).Canonical := by
  refine Vantage.canonical_known sound fun node member => ?_
  cases ancestor? with
  | none =>
      exact Cache.canonical_of_mem_complete? serverCanonical node member
  | some ancestor => exact ancestorCanonical node member

theorem canonical_visibleNode :
    (visibleNode server vantage).Canonical := by
  unfold visibleNode
  cases covered : vantage.shadow? [] with
  | some written =>
      rw [Vantage.shadow?_nil] at covered
      exact Vantage.canonical_overlay_node? sound.overlay_valid covered
  | none =>
      cases complete : server.complete with
      | true =>
          rw [Cache.complete?_of_complete complete]
          dsimp only
          rw [Vantage.node?_some sound]
          exact Pending.canonical_laidOver sound _ serverCanonical
      | false =>
          rw [Cache.complete?_of_incomplete complete]
          refine Vantage.canonical_children sound fun node member => ?_
          cases member
          exact serverCanonical

theorem canonical_child?_getD (key : Key) :
    ((vantage.child? key server).getD .empty).Canonical := by
  cases child : vantage.child? key server with
  | some value =>
      exact Vantage.canonical_child? sound serverCanonical child
  | none => exact Node.Canonical.empty

theorem sound_childEdit
    {known node : Node} (knownCanonical : known.Canonical)
    (canonical : node.Canonical)
    {key : Key} (unreserved : key.isPriority = false) (filter : Filter) :
    Edit.Sound node (childEdit filter server vantage known node key) := by
  rw [childEdit_eq filter server vantage known node unreserved]
  exact Filter.sound_setChild canonical
    (canonical_child?_getD sound serverCanonical key) knownCanonical
    unreserved filter

theorem canonical_childrenAfter
    {known node : Node} (knownCanonical : known.Canonical)
    (canonical : node.Canonical) {keys : List Key}
    (unreserved : ∀ key ∈ keys, key.isPriority = false)
    (filter : Filter) :
    (childrenAfter filter server vantage known node keys).Canonical := by
  induction keys generalizing node with
  | nil => exact canonical
  | cons key rest inductionHypothesis =>
      obtain ⟨first, others⟩ := List.forall_mem_cons.mp unreserved
      exact inductionHypothesis
        (sound_childEdit sound serverCanonical knownCanonical canonical
          first filter).canonical others

/-- A leaf replaces any snapshot without data, or no snapshot at all. -/
theorem leafEdit_cases (filter : Filter) (node : Node) :
    leafEdit filter server vantage node = .unchanged node ∨
      node.isEmpty = true ∧ ∃ whole : Node, whole.Canonical ∧
        whole.isLeaf = true ∧ ∀ other : Node, other.isEmpty = true →
          leafEdit filter server vantage other =
            filter.replace other whole := by
  unfold leafEdit
  cases noData : node.isEmpty with
  | false => exact .inl rfl
  | true =>
      rw [if_pos rfl]
      cases known : server.complete? with
      | none => exact .inl rfl
      | some data =>
          have dataCanonical :=
            Cache.canonical_of_mem_complete? serverCanonical data known
          dsimp only
          rw [Vantage.node?_some sound, Option.getD_some]
          have whole :=
            Pending.canonical_laidOver sound vantage.path dataCanonical
          generalize vantage.pending.laidOver vantage.path data = shown at *
          cases leaf : shown.isLeaf with
          | false => exact .inl rfl
          | true =>
              refine .inr ⟨rfl, shown, whole, leaf, fun other gone => ?_⟩
              rw [if_pos gone]
              exact if_pos rfl

private theorem sound_leafEdit
    {node : Node} (canonical : node.Canonical) (filter : Filter) :
    Edit.Sound node (leafEdit filter server vantage node) := by
  rcases leafEdit_cases sound serverCanonical filter node with
    unchanged | ⟨noData, whole, wholeCanonical, _, replaces⟩
  · rw [unchanged]
    exact Edit.Sound.unchanged canonical
  · rw [replaces node noData]
    exact Filter.sound_replace canonical wholeCanonical filter

/-- Computing children anew never fails. -/
theorem refreshChildren_ok
    {known start : Node} (knownCanonical : known.Canonical)
    {progress : Progress} (progressSound : progress.Sound start)
    {keys : List Key} (unreserved : ∀ key ∈ keys, key.isPriority = false)
    (filter : Filter) :
    ∃ ledger,
      keys.foldlM (refreshChild filter server vantage known) progress =
        .ok ⟨childrenAfter filter server vantage known progress.node keys,
          ledger⟩ ∧
      Progress.Sound start
        ⟨childrenAfter filter server vantage known progress.node keys,
          ledger⟩ := by
  induction keys generalizing progress with
  | nil => exact ⟨progress.ledger, rfl, progressSound⟩
  | cons key rest inductionHypothesis =>
      obtain ⟨first, others⟩ := List.forall_mem_cons.mp unreserved
      have edit :=
        sound_childEdit sound serverCanonical knownCanonical
          progressSound.canonical first filter
      obtain ⟨ledger, taken, nextSound⟩ := progressSound.take edit
      have refreshed :
          refreshChild filter server vantage known progress key =
            progress.take
              (childEdit filter server vantage known progress.node
                key) := by
        unfold refreshChild childEdit
        cases vantage.child? key server with
        | some _ => rfl
        | none =>
            dsimp only
            split
            · rfl
            · exact (Progress.take_unchanged progress).symm
      obtain ⟨last, folded, lastSound⟩ :=
        inductionHypothesis nextSound others
      refine ⟨last, ?_, lastSound⟩
      rw [List.foldlM_cons, refreshed, taken]
      exact folded

end

variable {vantage : Vantage} {caches : Caches}

/-- The visible data can always be computed anew, and the ledger tells what has changed. -/
theorem refresh_ok
    (sound : vantage.pending.Sound) (canonical : caches.Canonical)
    {ancestor? : Option Node}
    (ancestorCanonical : ∀ ancestor ∈ ancestor?, ancestor.Canonical)
    {scope : Scope}
    (unreserved : ∀ keys, scope = .children keys →
      ∀ key ∈ keys, key.isPriority = false)
    (filter : Filter) :
    let result := visibleAfter filter caches.server vantage ancestor?
      caches.visible.node scope
    ∃ ledger,
      refresh filter caches scope vantage ancestor? =
        .ok ({ caches with visible := ⟨result,
          caches.server.complete || (vantage.shadow? []).isSome,
          filter.drops⟩ }, ledger) ∧
      Progress.Sound caches.visible.node ⟨result, ledger⟩ := by
  have start :
      Progress.Sound caches.visible.node ⟨caches.visible.node, []⟩ :=
    ⟨canonical.visible, Ledger.Tracks.nil _⟩
  unfold refresh
  cases scope with
  | all =>
      have whole := canonical_visibleNode sound canonical.server
      obtain ⟨ledger, taken, finalSound⟩ :=
        start.take (Filter.sound_replace canonical.visible whole filter)
      refine ⟨ledger, ?_, finalSound⟩
      dsimp only
      rw [taken]
      rfl
  | children keys =>
      have knownCanonical :=
        canonical_known_or sound canonical.server ancestorCanonical
      obtain ⟨middle, folded, middleSound⟩ :=
        refreshChildren_ok sound canonical.server knownCanonical start
          (unreserved keys rfl) filter
      obtain ⟨last, taken, finalSound⟩ :=
        middleSound.take
          (sound_leafEdit sound canonical.server middleSound.canonical
            filter)
      refine ⟨last, ?_, finalSound⟩
      dsimp only
      rw [folded]
      change (refreshLeaf filter caches.server vantage _ >>= _) = _
      rw [refreshLeaf_eq, taken]
      rfl

/-- The ledger of an operation tells how the children differ from those before. -/
structure Accounts (before after : Caches) (ledger : Ledger) : Prop where
  canonical : after.Canonical
  tracks :
    Ledger.Tracks before.visible.node.child after.visible.node.child ledger

/-- An operation can always be applied, and its changes tell what has changed. -/
theorem apply_ok
    (sound : vantage.pending.Sound) (canonical : caches.Canonical)
    {ancestor? : Option Node}
    (ancestorCanonical : ∀ ancestor ∈ ancestor?, ancestor.Canonical)
    {operation : Operation} (valid : operation.Valid) (filter : Filter) :
    let result := after filter caches operation vantage ancestor?
    ∃ ledger,
      caches.apply filter operation vantage ancestor? =
        .ok ⟨result, ledger.changes ++
          Change.ofValue caches.visible result.visible⟩ ∧
      Accounts caches result ledger := by
  have received : (receive filter caches operation).Canonical := by
    constructor
    · rw [visible_receive]
      exact canonical.visible
    · exact canonical_receive canonical.server valid filter
  have unreserved : ∀ keys, operation.scope = .children keys →
      ∀ key ∈ keys, key.isPriority = false :=
    fun keys scope => (Operation.covers_of_scope scope).1
  obtain ⟨ledger, refreshed, finalSound⟩ :=
    refresh_ok sound received ancestorCanonical unreserved filter
  rw [visible_receive] at finalSound refreshed
  refine ⟨ledger, ?_, ⟨⟨finalSound.canonical, received.server⟩,
    finalSound.tracks⟩⟩
  unfold Caches.apply
  dsimp only
  rw [refreshed]
  rfl

end Caches

end Replica
