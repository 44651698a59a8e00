import Replica.Proofs.Json.Members
import Replica.Proofs.Key
import Replica.Proofs.Node.Children
import Replica.Proofs.Node.Data
import Replica.Proofs.Node.Read
import Replica.Proofs.Number.Rounding

/-!
# Nodes written as documents

A node that is written and read again is the same node, and without its priorities it still holds
the same data. A node that was read has keys that can be written, so it comes back as well.
-/

namespace Replica

open Std

/-- No array has more items than a 64-bit number can count; so at every level. -/
inductive Json.Sized : Json → Prop
  | null : Sized .null
  | bool (value : Bool) : Sized (.bool value)
  | integer (value : Int) : Sized (.integer value)
  | decimal (value : Number) : Sized (.decimal value)
  | string (text : String) : Sized (.string text)
  | array {items : List Json} (few : items.length ≤ UInt64.size)
      (sized : ∀ item ∈ items, Sized item) : Sized (.array items)
  | object {members : List (String × Json)}
      (sized : ∀ member ∈ members, Sized member.2) : Sized (.object members)

namespace Node

/-- All keys, at every level, are fit for data. -/
inductive Keyed : Node → Prop
  | leaf (value : Scalar) (priority : Option Priority) :
      Keyed (.leaf value priority)
  | branch {children : List (Key × Node)} {priority : Option Priority}
      (valid : ∀ entry ∈ children, entry.1.isValid = true)
      (keyed : ∀ entry ∈ children, Keyed entry.2) :
      Keyed (.branch children priority)

/-! ## Scalars and priorities -/

private theorem scalarOf_integer
    {value : Int} {number : Number}
    (read : Number.ofInt? value = some number) :
    scalarOf (.integer value) = .ok (some (.number number)) := by
  rw [scalarOf, read]
  rfl

theorem scalarOf_scalarToJson (value : Scalar) :
    ∃ other, scalarOf (scalarToJson value) = .ok (some other) ∧
      compare value other = .eq := by
  cases value with
  | bool value => exact ⟨_, rfl, ReflOrd.compare_self⟩
  | text value => exact ⟨_, rfl, ReflOrd.compare_self⟩
  | number value =>
      have asDecimal : ∃ other, scalarOf (.decimal value) =
          .ok (some other) ∧ compare (Scalar.number value) other = .eq :=
        ⟨_, rfl, ReflOrd.compare_self⟩
      rw [scalarToJson, numberToJson]
      split
      · rename_i n isInteger
        split
        · obtain ⟨other, read, sameKey⟩ :=
            Number.ofInt?_of_toInt? isInteger
          refine ⟨.number other, scalarOf_integer read, ?_⟩
          change compare value.orderKey other.orderKey = .eq
          rw [sameKey]
          exact ReflOrd.compare_self
        · exact asDecimal
      · exact asDecimal

private theorem ofJson_of_scalarOf
    {document : Json} {scalar : Scalar}
    (read : scalarOf document = .ok (some scalar)) :
    ofJson document = .ok (ofScalar scalar) := by
  cases document with
  | null => cases read
  | array _ => cases read
  | object _ => cases read
  | _ =>
      unfold ofJson
      rw [read]
      rfl

private theorem priorityOf_of_scalarOf
    {document : Json} {scalar : Scalar}
    (read : scalarOf document = .ok (some scalar)) :
    priorityOf document = (Priority.ofScalar scalar).map some := by
  cases document with
  | null => cases read
  | array _ => cases read
  | object _ => cases read
  | _ =>
      unfold priorityOf
      rw [read]
      cases scalar with
      | bool _ => rfl
      | number _ => rfl
      | text _ => rfl

private theorem priorityOf_scalarToJson (priority : Priority) :
    ∃ other, priorityOf (scalarToJson priority.toScalar) =
        .ok (some other) ∧ compare priority other = .eq := by
  obtain ⟨scalar, read, equal⟩ := scalarOf_scalarToJson priority.toScalar
  rw [priorityOf_of_scalarOf read]
  cases priority with
  | number value =>
      cases scalar with
      | number other => exact ⟨.number other, rfl, equal⟩
      | bool _ => cases equal
      | text _ => cases equal
  | text value =>
      cases scalar with
      | text other => exact ⟨.text other, rfl, equal⟩
      | bool _ => cases equal
      | number _ => cases equal

/-! ## Members -/

private theorem childMembers_eq
    (withPriorities : Bool) (children : List (Key × Node)) :
    childMembers withPriorities children = children.map fun entry =>
      (entry.1.text, toJson withPriorities entry.2) := by
  induction children with
  | nil => rfl
  | cons entry rest inductionHypothesis =>
      rw [childMembers, inductionHypothesis, List.map_cons]

/-- Members that can be read are read one by one, but for the priority. -/
theorem membersOf_ok
    {members : List (String × Json)}
    (read : ∀ member ∈ members, member.1 ≠ Key.priority.text →
      Key.isValid ⟨member.1⟩ = true ∧ ∃ node, ofJson member.2 = .ok node) :
    ∃ entries, membersOf members = .ok entries ∧
      entries.map (·.1.text) =
        (members.filter (·.1 != Key.priority.text)).map (·.1) ∧
      ∀ entry ∈ entries, ∃ member ∈ members,
        member.1 ≠ Key.priority.text ∧ member.1 = entry.1.text ∧
          ofJson member.2 = .ok entry.2 := by
  induction members with
  | nil =>
      exact ⟨[], by rw [membersOf], rfl,
        fun _ member => absurd member List.not_mem_nil⟩
  | cons member rest inductionHypothesis =>
      obtain ⟨first, others⟩ := List.forall_mem_cons.mp read
      obtain ⟨entries, restRead, names, origins⟩ :=
        inductionHypothesis others
      have restOrigins : ∀ entry ∈ entries, ∃ other ∈ member :: rest,
          other.1 ≠ Key.priority.text ∧ other.1 = entry.1.text ∧
            ofJson other.2 = .ok entry.2 := by
        intro entry held
        obtain ⟨other, otherHeld, origin⟩ := origins entry held
        exact ⟨other, List.mem_cons_of_mem _ otherHeld, origin⟩
      by_cases reserved : member.1 = Key.priority.text
      · refine ⟨entries, ?_, ?_, restOrigins⟩
        · rw [membersOf, if_pos reserved, restRead]
        · rwa [List.filter_cons_of_neg (by simpa using reserved)]
      · obtain ⟨valid, node, nodeRead⟩ := first reserved
        refine ⟨(⟨member.1⟩, node) :: entries, ?_, ?_, ?_⟩
        · rw [membersOf, if_neg reserved,
            @Key.parse_of_isValid ⟨member.1⟩ valid, nodeRead, restRead]
          rfl
        · rw [List.filter_cons_of_pos (by simpa using reserved),
            List.map_cons, List.map_cons, names]
        · refine List.forall_mem_cons.mpr ⟨?_, restOrigins⟩
          exact ⟨member, List.mem_cons_self, reserved, rfl, nodeRead⟩

/-! ## What a document keeps -/

/-- A document with priorities keeps the whole node, one without them keeps its data. -/
def Kept (withPriorities : Bool) (node other : Node) : Prop :=
  if withPriorities then node ≈ other else node.dataEq other = true

variable {withPriorities : Bool}

private theorem Kept.dataEq
    {node other : Node} (kept : Kept withPriorities node other) :
    node.dataEq other = true := by
  cases withPriorities with
  | true => exact dataEq_of_equiv kept
  | false => exact kept

theorem Kept.refl (node : Node) : Kept withPriorities node node := by
  cases withPriorities with
  | true => exact Setoid.refl node
  | false => exact dataEq_refl node

private theorem Kept.of_parts
    {node other : Node}
    (sameValue :
      Option.Rel (fun a b => compare a b = .eq) node.value? other.value?)
    (samePriority : withPriorities = true →
      Priority.orderOptional node.priority? other.priority? = .eq)
    (sameChildren : List.Forall₂
      (fun a b => a.1 = b.1 ∧ Kept withPriorities a.2 b.2)
      node.children other.children) :
    Kept withPriorities node other := by
  cases node <;> cases other
  · cases sameValue with
    | some equal =>
        cases withPriorities with
        | true => exact equiv_leaf_iff.mpr ⟨samePriority rfl, equal⟩
        | false => exact leaf_dataEq_leaf.mpr equal
  · cases sameValue
  · cases sameValue
  · cases withPriorities with
    | true => exact equiv_branch_iff.mpr ⟨samePriority rfl, sameChildren⟩
    | false => exact branch_dataEq_branch.mpr sameChildren

/-! ## Reading what was written -/

/-- A priority is written under its own name, or it is not among the members. -/
theorem priorityMembers_spec
    (withPriorities : Bool) (priority : Option Priority) :
    ∃ other, Priority.orderOptional
        (if withPriorities then priority else none) other = .eq ∧
      ((priorityMembers withPriorities priority = [] ∧ other = none) ∨
        ∃ document,
          priorityMembers withPriorities priority =
            [(Key.priority.text, document)] ∧
          priorityOf document = .ok other) := by
  cases withPriorities with
  | false => exact ⟨none, rfl, Or.inl ⟨rfl, rfl⟩⟩
  | true =>
      cases priority with
      | none => exact ⟨none, rfl, Or.inl ⟨rfl, rfl⟩⟩
      | some priority =>
          obtain ⟨other, read, equal⟩ := priorityOf_scalarToJson priority
          exact ⟨some other, equal, Or.inr ⟨_, rfl, read⟩⟩

variable {members : List (String × Json)} {priority : Option Priority}

private theorem ofJson_of_children
    (priorityRead : ((members.lookup Key.priority.text).map
      priorityOf).getD (.ok none) = .ok priority)
    (noValue : members.lookup Key.value.text = none)
    {entries : List (Key × Node)}
    (membersRead : membersOf members = .ok entries) :
    ofJson (.object members) =
      .ok ((ofChildren entries).setPriority priority) := by
  rw [ofJson, priorityRead, noValue, membersRead]
  rfl

private theorem ofJson_of_value
    (priorityRead : ((members.lookup Key.priority.text).map
      priorityOf).getD (.ok none) = .ok priority)
    {inner : Json} (valued : members.lookup Key.value.text = some inner) :
    ofJson (.object members) = leafOf members inner priority := by
  rw [ofJson, priorityRead, valued]
  rfl

private theorem leafOf_scalar
    (fit : ∀ member ∈ members,
      member.1 = Key.value.text ∨ member.1 = Key.priority.text)
    {inner : Json} {scalar : Scalar}
    (read : scalarOf inner = .ok (some scalar)) :
    leafOf members inner priority =
      .ok ((ofScalar scalar).setPriority priority) := by
  have noOther : (members.any fun member =>
      member.1 != Key.value.text && member.1 != Key.priority.text) =
        false := by
    rw [List.any_eq_false]
    intro member held
    rcases fit member held with named | named
    · simp [named]
    · simp [named]
  rw [leafOf, read]
  dsimp only
  rw [noOther]
  rfl

/-- A leaf with a priority is read from its two members. -/
theorem ofJson_valued
    {inner document : Json} {scalar : Scalar}
    (valueRead : scalarOf inner = .ok (some scalar))
    (priorityRead : priorityOf document = .ok priority) :
    ofJson (Json.ofMembers
        [(Key.value.text, inner), (Key.priority.text, document)]) =
      .ok ((ofScalar scalar).setPriority priority) := by
  have distinct : ([(Key.value.text, inner),
      (Key.priority.text, document)].map (·.1)).Nodup :=
    (by decide : [Key.value.text, Key.priority.text].Nodup)
  have valueHeld := Json.lookup_ofMembers distinct List.mem_cons_self
  have priorityHeld := Json.lookup_ofMembers distinct
    (List.mem_cons_of_mem _ List.mem_cons_self)
  have read := ofJson_of_value
    (by rw [priorityHeld, Option.map_some, Option.getD_some, priorityRead])
    valueHeld
  refine read.trans (leafOf_scalar ?_ valueRead)
  intro member held
  have written := ((Json.members_ofMembers distinct).2 member).mp held
  rcases List.mem_cons.mp written with rfl | later
  · exact Or.inl rfl
  · cases List.mem_singleton.mp later
    exact Or.inr rfl

/-- The members of a branch: those of its children and at most one for its priority. -/
def branchMembers (withPriorities : Bool) (children : List (Key × Node))
    (priority : Option Priority) : List (String × Json) :=
  childMembers withPriorities children ++
    priorityMembers withPriorities priority

private theorem mem_childMembers_iff
    {children : List (Key × Node)} {member : String × Json} :
    member ∈ childMembers withPriorities children ↔
      ∃ entry ∈ children,
        member = (entry.1.text, toJson withPriorities entry.2) := by
  rw [childMembers_eq, List.mem_map]
  exact exists_congr fun _ => and_congr_right fun _ => eq_comm

private theorem name_of_mem_priorityMembers
    {member : String × Json}
    (held : member ∈ priorityMembers withPriorities priority) :
    member.1 = Key.priority.text := by
  obtain ⟨_, _, ⟨unwritten, _⟩ | ⟨_, written, _⟩⟩ :=
    priorityMembers_spec withPriorities priority
  · rw [unwritten] at held
    cases held
  · rw [written] at held
    cases List.mem_singleton.mp held
    rfl

section Branch

variable {children : List (Key × Node)} (ascending : Sorted.Ascending children)
  (valid : ∀ entry ∈ children, entry.1.isValid = true)

include valid

private theorem name_of_mem_branchMembers
    {member : String × Json}
    (held : member ∈ branchMembers withPriorities children priority) :
    (member ∈ childMembers withPriorities children ∧
        Key.isValid ⟨member.1⟩ = true) ∨
      (member ∈ priorityMembers withPriorities priority ∧
        member.1 = Key.priority.text) := by
  rcases List.mem_append.mp held with ofChild | ofPriority
  · obtain ⟨entry, member, rfl⟩ := mem_childMembers_iff.mp ofChild
    exact Or.inl ⟨ofChild, valid entry member⟩
  · exact Or.inr ⟨ofPriority, name_of_mem_priorityMembers ofPriority⟩

include ascending

private theorem branchMembers_names_nodup :
    ((branchMembers withPriorities children priority).map
      (·.1)).Nodup := by
  rw [branchMembers, List.map_append, List.nodup_append]
  refine ⟨?_, ?_, ?_⟩
  · rw [childMembers_eq, List.map_map]
    have texts := (Sorted.nodup_keys ascending).map
      Key.text_injective
    rwa [List.map_map] at texts
  · obtain ⟨_, _, ⟨unwritten, _⟩ | ⟨_, written, _⟩⟩ :=
      priorityMembers_spec withPriorities priority
    · rw [unwritten]
      exact List.nodup_nil
    · rw [written]
      exact List.nodup_singleton _
  · intro name ofChild other ofPriority
    obtain ⟨member, held, rfl⟩ := List.mem_map.mp ofChild
    obtain ⟨entry, entryHeld, rfl⟩ := mem_childMembers_iff.mp held
    obtain ⟨otherMember, otherHeld, rfl⟩ := List.mem_map.mp ofPriority
    rw [name_of_mem_priorityMembers otherHeld]
    exact Key.text_ne_of_isValid (valid entry entryHeld) (by decide)

private theorem lookup_value_branchMembers :
    (Json.ofMembers (branchMembers withPriorities children
      priority)).members.lookup Key.value.text = none := by
  refine Json.lookup_ofMembers_of_absent
    (branchMembers_names_nodup ascending valid) fun member held => ?_
  rcases name_of_mem_branchMembers valid held with ⟨_, fit⟩ | ⟨_, named⟩
  · exact @Key.text_ne_of_isValid ⟨member.1⟩ _ fit (by decide)
  · rw [named]
    decide

/-- The priority that is read is the one that was written. -/
theorem lookup_priority_branchMembers
    (withPriorities : Bool) (priority : Option Priority) :
    ∃ other, Priority.orderOptional
        (if withPriorities then priority else none) other = .eq ∧
      (((Json.ofMembers (branchMembers withPriorities children
        priority)).members.lookup Key.priority.text).map
          priorityOf).getD (.ok none) = .ok other := by
  have distinct := @branchMembers_names_nodup withPriorities priority
    children ascending valid
  obtain ⟨other, equal, found⟩ :=
    priorityMembers_spec withPriorities priority
  refine ⟨other, equal, ?_⟩
  rcases found with ⟨unwritten, rfl⟩ | ⟨document, written, read⟩
  · rw [Json.lookup_ofMembers_of_absent distinct]
    · rfl
    · intro member held
      rcases name_of_mem_branchMembers valid held with
        ⟨_, fit⟩ | ⟨ofPriority, _⟩
      · exact @Key.text_ne_of_isValid ⟨member.1⟩ _ fit (by decide)
      · rw [unwritten] at ofPriority
        cases ofPriority
  · have held : (Key.priority.text, document) ∈
        branchMembers withPriorities children priority := by
      rw [branchMembers, written]
      exact List.mem_append_right _ List.mem_cons_self
    rw [Json.lookup_ofMembers distinct held]
    exact read

/-- The children that are read are the ones that were written. -/
theorem membersOf_branchMembers
    (read : ∀ entry ∈ children, ∃ other,
      ofJson (toJson withPriorities entry.2) = .ok other ∧
        Kept withPriorities entry.2 other) :
    ∃ entries,
      membersOf (Json.ofMembers (branchMembers withPriorities children
        priority)).members = .ok entries ∧
      (entries.map (·.1)).Nodup ∧
      (∀ entry ∈ children, ∃ other ∈ entries, other.1 = entry.1) ∧
      ∀ other ∈ entries, ∃ entry ∈ children,
        entry.1 = other.1 ∧ Kept withPriorities entry.2 other.2 := by
  obtain ⟨sorted, same⟩ := Json.members_ofMembers
    (@branchMembers_names_nodup withPriorities priority children ascending
      valid)
  generalize (Json.ofMembers (branchMembers withPriorities children
    priority)).members = members at sorted same ⊢
  have written : ∀ member ∈ members, member.1 ≠ Key.priority.text →
      ∃ entry ∈ children,
        member = (entry.1.text, toJson withPriorities entry.2) := by
    intro member held unreserved
    rcases name_of_mem_branchMembers valid ((same member).mp held) with
      ⟨ofChild, _⟩ | ⟨_, reserved⟩
    · exact mem_childMembers_iff.mp ofChild
    · exact absurd reserved unreserved
  obtain ⟨entries, membersRead, names, origins⟩ := @membersOf_ok members (by
    intro member held unreserved
    obtain ⟨entry, entryHeld, rfl⟩ := written member held unreserved
    obtain ⟨other, otherRead, _⟩ := read entry entryHeld
    exact ⟨valid entry entryHeld, other, otherRead⟩)
  refine ⟨entries, membersRead, ?_, ?_, ?_⟩
  · have texts := Sorted.nodup_keys
      (Sorted.ascending_filter (·.1 != Key.priority.text) sorted)
    rw [← names] at texts
    exact List.Nodup.of_map Key.text (by rwa [List.map_map])
  · intro entry entryHeld
    have unreserved := Key.text_ne_of_isValid (valid entry entryHeld)
      (by decide : Key.priority.isValid = false)
    have held : (entry.1.text, toJson withPriorities entry.2) ∈ members :=
      (same _).mpr (List.mem_append_left _
        (mem_childMembers_iff.mpr ⟨entry, entryHeld, rfl⟩))
    have named : entry.1.text ∈ entries.map (·.1.text) := by
      rw [names]
      exact List.mem_map.mpr ⟨_, List.mem_filter.mpr
        ⟨held, bne_iff_ne.mpr unreserved⟩, rfl⟩
    obtain ⟨other, otherHeld, sameText⟩ := List.mem_map.mp named
    exact ⟨other, otherHeld, Key.text_injective sameText⟩
  · intro other otherHeld
    obtain ⟨member, held, unreserved, sameText, otherRead⟩ :=
      origins other otherHeld
    obtain ⟨entry, entryHeld, rfl⟩ := written member held unreserved
    obtain ⟨node, nodeRead, kept⟩ := read entry entryHeld
    rw [nodeRead] at otherRead
    cases otherRead
    exact ⟨entry, entryHeld, Key.text_injective sameText, kept⟩

end Branch

private theorem ofJson_toJson_leaf
    (withPriorities : Bool) (value : Scalar) (priority : Option Priority) :
    ∃ other, ofJson (toJson withPriorities (leaf value priority)) =
        .ok other ∧
      Kept withPriorities (leaf value priority) other := by
  obtain ⟨scalar, valueRead, sameValue⟩ := scalarOf_scalarToJson value
  obtain ⟨other, samePriority, found⟩ :=
    priorityMembers_spec withPriorities priority
  rw [toJson]
  rcases found with ⟨unwritten, rfl⟩ | ⟨document, written, read⟩
  · rw [unwritten]
    refine ⟨ofScalar scalar, ofJson_of_scalarOf valueRead,
      Kept.of_parts (Option.Rel.some sameValue) ?_ List.Forall₂.nil⟩
    rintro rfl
    exact samePriority
  · rw [written]
    refine ⟨_, ofJson_valued valueRead read, Kept.of_parts ?_ ?_ ?_⟩
    · rw [value?_setPriority]
      exact Option.Rel.some sameValue
    · rintro rfl
      exact Priority.orderOptional_trans samePriority
        (Priority.orderOptional_symm
          (priority?_setPriority (Canonical.ofScalar scalar) other))
    · rw [children_setPriority]
      exact List.Forall₂.nil

/-- A branch is kept by any arrangement of children that keep its own. -/
theorem Kept.branch
    {children : List (Key × Node)} {priority : Option Priority}
    (canonical : (branch children priority).Canonical)
    (present : children ≠ []) {entries : List (Key × Node)}
    (entriesCanonical : ∀ entry ∈ entries, entry.2.Canonical)
    (distinct : (entries.map (·.1)).Nodup)
    (covered : ∀ entry ∈ children, ∃ other ∈ entries, other.1 = entry.1)
    (origins : ∀ other ∈ entries, ∃ entry ∈ children,
      entry.1 = other.1 ∧ Kept withPriorities entry.2 other.2)
    {other : Option Priority}
    (samePriority : withPriorities = true →
      Priority.orderOptional priority other = .eq) :
    Kept withPriorities (branch children priority)
      ((ofChildren entries).setPriority other) := by
  have sameChildren := Sorted.forall₂_ofList canonical.children_ascending
    distinct covered origins
  have kept : ofChildren entries =
      ofSorted (Sorted.ofList entries) none := by
    refine ofChildren_of_present ?_ ?_
    · intro entry member
      obtain ⟨old, oldMember, _, same⟩ := origins entry member
      rw [← isEmpty_of_dataEq same.dataEq]
      exact canonical.nonempty_of_mem_children oldMember
    · intro entry member
      obtain ⟨old, oldMember, sameKey, _⟩ := origins entry member
      rw [← sameKey]
      exact canonical.unreserved_of_mem_children oldMember
  have stillPresent : (ofChildren entries).isEmpty = false := by
    rw [kept, isEmpty_ofSorted, List.isEmpty_eq_false_iff]
    intro nothing
    rw [nothing] at sameChildren
    exact present (List.forall₂_nil_right_iff.mp sameChildren)
  refine Kept.of_parts ?_ ?_ ?_
  · rw [value?_setPriority, kept, value?_ofSorted]
    exact Option.Rel.none
  · intro exported
    have set := priority?_setPriority
      (Canonical.ofChildren entriesCanonical) other
    rw [stillPresent, if_neg Bool.false_ne_true] at set
    exact Priority.orderOptional_trans (samePriority exported)
      (Priority.orderOptional_symm set)
  · rw [children_setPriority, kept, children_ofSorted]
    exact sameChildren

/-- A node that is written can be read, and the document keeps what it should. -/
theorem ofJson_toJson
    {node : Node} (canonical : node.Canonical) (keyed : node.Keyed) :
    ∃ other, ofJson (toJson withPriorities node) = .ok other ∧
      Kept withPriorities node other := by
  induction node using induct with
  | leaf value priority =>
      exact ofJson_toJson_leaf withPriorities value priority
  | branch children priority inductionHypothesis =>
      cases keyed with
      | branch valid keyed =>
      have ascending := canonical.children_ascending
      by_cases childless : children = []
      · rw [canonical.eq_empty (List.isEmpty_iff.mpr childless)]
        refine ⟨empty, ?_, Kept.refl empty⟩
        rw [empty, toJson, List.isEmpty_nil, if_pos rfl, ofJson]
        rfl
      · obtain ⟨other, samePriority, priorityRead⟩ :=
          lookup_priority_branchMembers ascending valid withPriorities
            priority
        obtain ⟨entries, membersRead, distinct, covered, origins⟩ :=
          @membersOf_branchMembers withPriorities priority children ascending
            valid fun entry member => inductionHypothesis entry member
              (canonical.of_mem_children member) (keyed entry member)
        rw [toJson, if_neg (mt List.isEmpty_iff.mp childless)]
        refine ⟨_, ofJson_of_children priorityRead
            (lookup_value_branchMembers ascending valid) membersRead,
          Kept.branch canonical childless
            (canonical_of_membersOf membersRead) distinct covered origins ?_⟩
        rintro rfl
        exact samePriority

/-! ## Keys of nodes that are read -/

private theorem Keyed.empty : Keyed Node.empty :=
  Keyed.branch (fun _ member => absurd member List.not_mem_nil)
    fun _ member => absurd member List.not_mem_nil

private theorem Keyed.setPriority
    {node : Node} (keyed : Keyed node) (priority : Option Priority) :
    Keyed (node.setPriority priority) := by
  unfold Node.setPriority
  split
  · exact keyed
  · cases keyed with
    | leaf value _ => exact Keyed.leaf value priority
    | @branch children _ valid keyed =>
        cases children with
        | nil => exact Keyed.branch valid keyed
        | cons _ _ => exact Keyed.branch valid keyed

private theorem Keyed.ofChildren
    {entries : List (Key × Node)}
    (fine : ∀ entry ∈ entries,
      entry.1.isValid = true ∧ Keyed entry.2) :
    Keyed (Node.ofChildren entries) := by
  have kept : ∀ entry ∈ Sorted.ofList (entries.filter fun entry =>
      !entry.2.isEmpty && !entry.1.isPriority),
        entry.1.isValid = true ∧ Keyed entry.2 := fun entry member =>
    fine entry (List.mem_filter.mp (Sorted.mem_of_mem_ofList member)).1
  unfold Node.ofChildren Node.ofSorted
  split
  · exact Keyed.empty
  · exact Keyed.branch (fun entry member => (kept entry member).1)
      fun entry member => (kept entry member).2

private theorem keyed_of_leafOf
    {inner : Json} {node : Node}
    (read : leafOf members inner priority = .ok node) : node.Keyed := by
  rcases eq_of_leafOf read with ⟨scalar, rfl⟩ | rfl
  · exact (Keyed.leaf scalar none).setPriority priority
  · exact Keyed.empty.setPriority priority

private theorem keyed_of_scalarOf
    {document : Json} {node : Node}
    (read : (do
      match ← scalarOf document with
      | some scalar => return ofScalar scalar
      | none => return empty) = Except.ok node) : node.Keyed := by
  rcases eq_of_scalarOf read with ⟨scalar, rfl⟩ | rfl
  · exact Keyed.leaf scalar none
  · exact Keyed.empty

mutual

/-- A node that is read has keys that can be written. -/
theorem keyed_of_ofJson :
    ∀ {document : Json} {node : Node}, document.Sized →
      ofJson document = .ok node → node.Keyed
  | .null, node, _, read => by
      rw [ofJson] at read
      cases read
      exact Keyed.empty
  | .array items, node, sized, read => by
      cases sized with
      | array few sized =>
      rw [ofJson] at read
      obtain ⟨children, itemsRead, read⟩ := bind_eq_ok read
      cases read
      refine Keyed.ofChildren (keyed_of_itemsOf sized ?_ itemsRead)
      rwa [Nat.zero_add]
  | .object members, node, sized, read => by
      cases sized with
      | object sized =>
      rw [ofJson] at read
      obtain ⟨priority, _, read⟩ := bind_eq_ok read
      split at read
      · exact keyed_of_leafOf read
      · obtain ⟨children, membersRead, read⟩ := bind_eq_ok read
        cases read
        exact (Keyed.ofChildren
          (keyed_of_membersOf sized membersRead)).setPriority priority
  | .bool value, node, _, read => by
      unfold ofJson at read
      exact keyed_of_scalarOf read
  | .integer value, node, _, read => by
      unfold ofJson at read
      exact keyed_of_scalarOf read
  | .decimal value, node, _, read => by
      unfold ofJson at read
      exact keyed_of_scalarOf read
  | .string text, node, _, read => by
      unfold ofJson at read
      exact keyed_of_scalarOf read

theorem keyed_of_itemsOf :
    ∀ {items : List Json} {position : Nat} {children : List (Key × Node)},
      (∀ item ∈ items, item.Sized) →
      position + items.length ≤ UInt64.size →
      itemsOf position items = .ok children →
        ∀ entry ∈ children, entry.1.isValid = true ∧ entry.2.Keyed
  | [], position, children, _, _, read => by
      rw [itemsOf] at read
      cases read
      exact fun _ member => absurd member List.not_mem_nil
  | item :: rest, position, children, sized, few, read => by
      obtain ⟨itemSized, restSized⟩ := List.forall_mem_cons.mp sized
      rw [List.length_cons] at few
      rw [itemsOf] at read
      obtain ⟨node, nodeRead, read⟩ := bind_eq_ok read
      obtain ⟨others, othersRead, read⟩ := bind_eq_ok read
      cases read
      refine List.forall_mem_cons.mpr ⟨⟨?_, keyed_of_ofJson itemSized nodeRead⟩,
        keyed_of_itemsOf restSized ?_ othersRead⟩
      · exact Key.isValid_position (by omega)
      · omega

theorem keyed_of_membersOf :
    ∀ {members : List (String × Json)} {children : List (Key × Node)},
      (∀ member ∈ members, member.2.Sized) →
      membersOf members = .ok children →
        ∀ entry ∈ children, entry.1.isValid = true ∧ entry.2.Keyed
  | [], children, _, read => by
      rw [membersOf] at read
      cases read
      exact fun _ member => absurd member List.not_mem_nil
  | (name, value) :: rest, children, sized, read => by
      obtain ⟨valueSized, restSized⟩ := List.forall_mem_cons.mp sized
      rw [membersOf] at read
      split at read
      · exact keyed_of_membersOf restSized read
      · obtain ⟨key, keyRead, read⟩ := bind_eq_ok read
        obtain ⟨node, nodeRead, read⟩ := bind_eq_ok read
        obtain ⟨others, othersRead, read⟩ := bind_eq_ok read
        cases read
        exact List.forall_mem_cons.mpr
          ⟨⟨Key.isValid_of_parse keyRead,
            keyed_of_ofJson valueSized nodeRead⟩,
          keyed_of_membersOf restSized othersRead⟩

end

/-! ## Round trip -/

/-- A node with keys that are fit for data comes back from its document: the same node with its
priorities, and the same data without them. A document that can be read gives such a node, so
writing that node and reading it again gives the same node once more. -/
theorem documents_round_trip :
    (∀ {node : Node}, node.Canonical → node.Keyed →
      (∃ other, ofJson (toJson true node) = .ok other ∧
        node.same other = true) ∧
      ∃ other, ofJson (toJson false node) = .ok other ∧
        node.dataEq other = true) ∧
    ∀ {document : Json} {node : Node}, document.Sized →
      ofJson document = .ok node →
      node.Keyed ∧ ∃ other, ofJson (toJson true node) = .ok other ∧
        node.same other = true := by
  refine ⟨fun canonical keyed =>
    ⟨ofJson_toJson canonical keyed, ofJson_toJson canonical keyed⟩, ?_⟩
  intro document node sized read
  have keyed := keyed_of_ofJson sized read
  exact ⟨keyed, ofJson_toJson (canonical_of_ofJson read) keyed⟩

/-- A list under a name, its second item absent, and a priority beside it. -/
def rankedList : Json :=
  .object [("a", .array [.bool true, .null]), (".priority", .string "p")]

theorem documents_round_trip_of_rankedList :
    ∃ node, ofJson rankedList = .ok node ∧ node.Canonical ∧ node.Keyed ∧
      node.priority?.isSome = true ∧
      node.descendant [⟨"a"⟩, ⟨"0"⟩] = ofScalar (.bool true) ∧
      (∃ other, ofJson (toJson true node) = .ok other ∧
        node.same other = true) ∧
      ∃ other, ofJson (toJson false node) = .ok other ∧
        node.dataEq other = true := by
  have read : ofJson rankedList = .ok
      (branch [(⟨"a"⟩, branch [(⟨"0"⟩, leaf (.bool true) none)] none)]
        (some (.text "p"))) := rfl
  have sized : rankedList.Sized := by
    refine Json.Sized.object (List.forall_mem_cons.mpr
      ⟨Json.Sized.array (by decide) ?_, List.forall_mem_singleton.mpr
        (Json.Sized.string "p")⟩)
    exact List.forall_mem_cons.mpr ⟨Json.Sized.bool true,
      List.forall_mem_singleton.mpr Json.Sized.null⟩
  have canonical := canonical_of_ofJson read
  have keyed := (documents_round_trip.2 sized read).1
  exact ⟨_, read, canonical, keyed, rfl, rfl,
    documents_round_trip.1 canonical keyed⟩

end Node

end Replica
