import Replica.Proofs.Pending

/-!
# Pending writes over the data of the server

What a location shows is the overlay as seen from there, laid over the data of the server. The
children that it shows are the ones that the children's own locations show.
-/

namespace Replica

namespace Pending

/-- The node that the visible writes give over data of the server at a location. -/
def laidOver (pending : Pending) (path : Path) (server : Node) : Node :=
  (pending.overlay.restrict path).apply server

theorem canonical_laidOver
    {pending : Pending} (sound : pending.Sound) (path : Path)
    {server : Node} (canonical : server.Canonical) :
    (pending.laidOver path server).Canonical :=
  (sound.overlay_valid.restrict path).apply canonical

/-- A location that a write covers does not show the data of the server. -/
theorem laidOver_of_node?
    {pending : Pending} (sound : pending.Sound)
    {path : Path} {shadow : Node}
    (covered : pending.overlay.node? path = some shadow) (server : Node) :
    pending.laidOver path server = shadow := by
  refine Overlay.apply_of_root? (sound.overlay_valid.restrict path) ?_ server
  rw [Overlay.root?_restrict sound.overlay_valid, covered]

theorem laidOver_congr
    {pending next : Pending} (sound : pending.Sound)
    (nextSound : next.Sound) {path : Path}
    (equal : pending.overlay.restrict path ≈ next.overlay.restrict path)
    {server other : Node} (sameServer : server ≈ other)
    (canonical : server.Canonical) (otherCanonical : other.Canonical) :
    pending.laidOver path server ≈ next.laidOver path other :=
  Overlay.apply_congr equal (sound.overlay_valid.restrict path)
    (nextSound.overlay_valid.restrict path) sameServer canonical
    otherCanonical

/-- What a location shows is, at a location below it, what that location shows. -/
theorem descendant_laidOver
    {pending : Pending} (sound : pending.Sound) (path : Path)
    {below : Path} (unreserved : below.Unreserved)
    {server : Node} (canonical : server.Canonical) :
    (pending.laidOver path server).descendant below ≈
      pending.laidOver (path ++ below) (server.descendant below) := by
  unfold laidOver
  rw [← Overlay.restrict_restrict sound.overlay_valid]
  exact Overlay.descendant_apply (sound.overlay_valid.restrict path)
    unreserved canonical

/-- The children of what a location shows are what the locations of the children show. -/
theorem child_laidOver
    {pending : Pending} (sound : pending.Sound) (path : Path)
    {key : Key} (unreserved : key.isPriority = false)
    {server : Node} (canonical : server.Canonical) :
    (pending.laidOver path server).child key ≈
      pending.laidOver (path ++ [key]) (server.child key) :=
  descendant_laidOver sound path (Path.unreserved_singleton unreserved)
    canonical

/-- Where a write determines the location, the data of the server does not show. -/
theorem laidOver_of_determined
    {pending : Pending} (sound : pending.Sound) {path : Path}
    (determined : (pending.overlay.node? path).isSome = true)
    (node other : Node) :
    pending.laidOver path node = pending.laidOver path other := by
  obtain ⟨shadow, isShadow⟩ := Option.isSome_iff_exists.mp determined
  rw [laidOver_of_node? sound isShadow, laidOver_of_node? sound isShadow]

/-- Data of the server that is not complete only counts where it does not show. -/
theorem laidOver_complete?
    {pending : Pending} (sound : pending.Sound) {path : Path}
    {server : Cache}
    (known :
      (server.complete || (pending.overlay.node? path).isSome) = true) :
    pending.laidOver path (server.complete?.getD .empty) =
      pending.laidOver path server.node := by
  cases complete : server.complete with
  | true => rw [Cache.complete?, complete, if_pos rfl, Option.getD_some]
  | false =>
      rw [complete, Bool.false_or] at known
      exact laidOver_of_determined sound known _ _

/-- Where no visible write lies above, at or below a location, the data of the server shows. -/
theorem laidOver_of_unreached
    {pending : Pending} (sound : pending.Sound) {path : Path}
    (notAbove : ∀ write ∈ pending.visibleWrites,
      Path.contains write.1 path = false)
    (notBelow : ∀ write ∈ pending.visibleWrites,
      Path.contains path write.1 = false) (node : Node) :
    pending.laidOver path node = node := by
  refine Overlay.apply_of_isEmpty (List.isEmpty_iff.mpr ?_) node
  rw [Overlay.writes_restrict sound.overlay_valid]
  refine List.filterMap_eq_nil_iff.mpr fun entry member => ?_
  rw [sound.overlay_eq] at member
  rcases Overlay.path_of_mem_adds member with ⟨_, absurdity, _⟩ |
    ⟨write, writeMember, same⟩
  · cases absurdity
  · refine Overlay.seenFrom_beside entry.2 ?_ ?_
    · rw [← same]
      exact notAbove write writeMember
    · rw [← same]
      exact notBelow write writeMember

/-- Where a visible write lies above or at a location, the data of the server does not show. -/
theorem laidOver_of_covered
    {pending : Pending} (sound : pending.Sound) {path : Path}
    {write : Path × Node} (member : write ∈ pending.visibleWrites)
    (above : Path.contains write.1 path = true) (node other : Node) :
    pending.laidOver path node = pending.laidOver path other :=
  laidOver_of_determined sound
    (isSome_node?_of_covered sound member above) node other

/-- A node is known where the server has data or a write covers the location. -/
theorem node?_eq
    {pending : Pending} (sound : pending.Sound)
    (path : Path) (server? : Option Node) :
    pending.node? path server? false =
      if server?.isSome || (pending.overlay.node? path).isSome then
        some (pending.laidOver path (server?.getD .empty))
      else none := by
  have restricted := sound.overlay_valid.restrict path
  have covered :
      (pending.overlay.restrict path).determines [] =
        (pending.overlay.node? path).isSome := by
    rw [Overlay.determines_eq_isSome_node?,
      ← Overlay.root?_restrict restricted, Overlay.restrict_root,
      Overlay.root?_restrict sound.overlay_valid]
  unfold node?
  change (if (pending.overlay.restrict path).isEmpty then server?
    else if server?.isNone &&
        !(pending.overlay.restrict path).determines [] then none
      else some (pending.laidOver path (server?.getD .empty))) = _
  rw [covered]
  by_cases noWrites : (pending.overlay.restrict path).isEmpty = true
  · have uncovered : pending.overlay.node? path = none := by
      have nothing : (pending.overlay.restrict path).writes = [] :=
        List.isEmpty_iff.mp noWrites
      rw [← Overlay.root?_restrict sound.overlay_valid]
      unfold Overlay.root?
      rw [nothing]
      rfl
    rw [if_pos noWrites, uncovered]
    cases server? with
    | none => rfl
    | some server =>
        exact congrArg some
          (Overlay.apply_of_isEmpty noWrites server).symm
  · rw [if_neg noWrites]
    cases server? with
    | none =>
        cases pending.overlay.node? path with
        | none => rfl
        | some _ => rfl
    | some _ => rfl

end Pending

namespace Vantage

variable {vantage : Vantage}

theorem shadow?_nil (vantage : Vantage) :
    vantage.shadow? [] = vantage.pending.overlay.node? vantage.path := by
  unfold shadow?
  rw [List.append_nil]

theorem node?_some
    (sound : vantage.pending.Sound) (server : Node) :
    vantage.node? (some server) =
      some (vantage.pending.laidOver vantage.path server) := by
  unfold node?
  rw [Pending.node?_eq sound]
  rfl

/-- A child is known where the server's cache knows it or a write covers its location. -/
theorem child?_eq
    (sound : vantage.pending.Sound) (key : Key) (server : Cache) :
    vantage.child? key server =
      if server.knowsChild key ||
          (vantage.pending.overlay.node? (vantage.path ++ [key])).isSome then
        some (vantage.pending.laidOver (vantage.path ++ [key])
          (server.node.child key))
      else none := by
  unfold child?
  dsimp only
  cases covered :
      vantage.pending.overlay.node? (vantage.path ++ [key]) with
  | some shadow =>
      rw [Pending.laidOver_of_node? sound covered, Option.isSome_some,
        Bool.or_true, if_pos rfl]
  | none =>
      rw [Option.isSome_none, Bool.or_false]
      rfl

theorem canonical_child?
    (sound : vantage.pending.Sound) {key : Key} {server : Cache}
    (canonical : server.node.Canonical) {child : Node}
    (known : vantage.child? key server = some child) :
    child.Canonical := by
  rw [child?_eq sound] at known
  split at known
  · cases known
    exact Pending.canonical_laidOver sound _ (canonical.child key)
  · cases known

theorem canonical_overlay_node?
    {overlay : Overlay} (valid : overlay.Valid)
    {path : Path} {node : Node} (covered : overlay.node? path = some node) :
    node.Canonical := by
  rcases Overlay.covering?_cases valid path with
    ⟨above, below, existing, rfl, stored, _⟩ | uncovered
  · rw [Overlay.node?_of_find? valid stored] at covered
    cases covered
    exact (valid.canonical _ (Sorted.mem_of_find?_eq_some stored)).descendant
      below
  · rw [Overlay.node?_eq_none_iff.mpr uncovered] at covered
    cases covered

theorem canonical_children
    (sound : vantage.pending.Sound) {server? : Option Node}
    (canonical : ∀ server ∈ server?, server.Canonical) :
    (vantage.children server?).Canonical := by
  have valid := sound.overlay_valid
  have seenValid : vantage.overlay.Valid := valid.restrict vantage.path
  unfold children
  cases covered : vantage.shadow? [] with
  | some top =>
      have topCanonical : top.Canonical := by
        rw [shadow?_nil] at covered
        exact canonical_overlay_node? valid covered
      dsimp only
      split
      · exact Node.Canonical.empty
      · exact Node.Canonical.ofChildren fun entry member =>
          topCanonical.of_mem_children member
  | none =>
      dsimp only
      have known :
          ∀ entry ∈ (server?.map Node.children).getD [],
            entry.2.Canonical := by
        cases server? with
        | none => exact fun _ member => absurd member List.not_mem_nil
        | some server =>
            exact fun entry member =>
              (canonical server rfl).of_mem_children member
      have written :=
        List.foldlRecOn (motive := Node.Canonical)
          ((server?.map Node.children).getD []) _
          Node.Canonical.empty fun all allCanonical entry member =>
            allCanonical.setChild
              ((seenValid.restrict [entry.1]).apply
                (known entry member)) entry.1
      have determined :
          ∀ entry ∈ vantage.overlay.children, entry.2.Canonical := by
        unfold Overlay.children
        cases root : vantage.overlay.root? with
        | some node =>
            have rootCanonical :=
              seenValid.canonical _ (Sorted.mem_of_find?_eq_some root)
            exact fun entry member => rootCanonical.of_mem_children member
        | none =>
            intro entry member
            obtain ⟨write, writeMember, produced⟩ :=
              List.mem_filterMap.mp member
            have writeCanonical := seenValid.canonical write writeMember
            dsimp only at produced
            split at produced
            · split at produced
              · cases produced
              · cases produced
                exact writeCanonical
            · cases produced
      exact Node.Canonical.foldl_setChild written determined

theorem canonical_known
    (sound : vantage.pending.Sound) {server? : Option Node}
    (canonical : ∀ server ∈ server?, server.Canonical) :
    (vantage.known server?).Canonical := by
  have seenValid : vantage.overlay.Valid :=
    sound.overlay_valid.restrict vantage.path
  unfold known
  cases root : vantage.overlay.root? with
  | some node =>
      exact seenValid.canonical _ (Sorted.mem_of_find?_eq_some root)
  | none =>
      cases server? with
      | none => exact Node.Canonical.empty
      | some server => exact seenValid.apply (canonical server rfl)

end Vantage

end Replica
