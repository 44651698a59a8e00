import Replica.Json.Basic
import Replica.Proofs.Sorted

/-!
# Members of objects

An object that is made of members with distinct names holds these members and no others, in the
order of their names.
-/

namespace Replica.Json

private theorem insertMember_of_absent
    {name : String} (value : Json) {members : List (String × Json)}
    (absent : ∀ member ∈ members, member.1 ≠ name) :
    insertMember name value members = Sorted.insert name value members := by
  induction members with
  | nil => rfl
  | cons member rest inductionHypothesis =>
      obtain ⟨first, others⟩ := List.forall_mem_cons.mp absent
      rw [insertMember, Sorted.insert]
      cases direction : compare name member.1 with
      | lt => rfl
      | eq =>
          exact absurd (Std.LawfulEqOrd.eq_of_compare direction).symm first
      | gt =>
          dsimp only
          rw [inductionHypothesis others]

theorem members_ofMembers
    {members : List (String × Json)}
    (distinct : (members.map (·.1)).Nodup) :
    Sorted.Ascending (ofMembers members).members ∧
      ∀ member, member ∈ (ofMembers members).members ↔
        member ∈ members := by
  induction members with
  | nil => exact ⟨List.Pairwise.nil, fun _ => Iff.rfl⟩
  | cons first rest inductionHypothesis =>
      obtain ⟨notLater, restDistinct⟩ := List.nodup_cons.mp distinct
      obtain ⟨ascending, same⟩ := inductionHypothesis restDistinct
      have absent : ∀ member ∈ (ofMembers rest).members,
          member.1 ≠ first.1 := by
        intro member held equal
        have named : member.1 ∈ rest.map (·.1) :=
          List.mem_map_of_mem ((same member).mp held)
        rw [equal] at named
        exact notLater named
      have placed : (ofMembers (first :: rest)).members =
          Sorted.insert first.1 first.2 (ofMembers rest).members :=
        insertMember_of_absent first.2 absent
      rw [placed]
      refine ⟨Sorted.ascending_insert first.2 ascending, fun member => ?_⟩
      rw [Sorted.mem_insert_of_absent first.2 ascending absent, same,
        List.mem_cons]

private theorem lookup_eq_find?
    {members : List (String × Json)}
    (ascending : Sorted.Ascending members) (name : String) :
    members.lookup name = Sorted.find? name members := by
  induction members with
  | nil => rfl
  | cons member rest inductionHypothesis =>
      obtain ⟨least, restAscending⟩ := List.pairwise_cons.mp ascending
      have later := inductionHypothesis restAscending
      rw [List.lookup_cons]
      by_cases same : name = member.1
      · subst same
        rw [beq_self_eq_true, Sorted.find?_cons_self]
      · rw [beq_false_of_ne same]
        dsimp only
        rw [later]
        cases direction : compare name member.1 with
        | lt =>
            rw [Sorted.find?_cons_of_lt direction]
            exact Sorted.find?_eq_none_of_below fun other otherMember =>
              Std.TransCmp.lt_trans direction (least other otherMember)
        | eq =>
            exact absurd (Std.LawfulEqOrd.eq_of_compare direction) same
        | gt => rw [Sorted.find?_cons_of_gt direction]

theorem lookup_ofMembers
    {members : List (String × Json)}
    (distinct : (members.map (·.1)).Nodup)
    {name : String} {value : Json} (member : (name, value) ∈ members) :
    (ofMembers members).members.lookup name = some value := by
  obtain ⟨ascending, same⟩ := members_ofMembers distinct
  rw [lookup_eq_find? ascending]
  exact Sorted.find?_of_mem ascending ((same _).mpr member)

theorem lookup_ofMembers_of_absent
    {members : List (String × Json)}
    (distinct : (members.map (·.1)).Nodup)
    {name : String} (absent : ∀ member ∈ members, member.1 ≠ name) :
    (ofMembers members).members.lookup name = none := by
  obtain ⟨ascending, same⟩ := members_ofMembers distinct
  rw [lookup_eq_find? ascending, Option.eq_none_iff_forall_ne_some]
  intro value found
  exact absent (name, value)
    ((same _).mp (Sorted.mem_of_find?_eq_some found)) rfl

end Replica.Json
