import Mathlib.Data.Bool.AllAny
import Replica.Proofs.Json.Writer
import Replica.Proofs.Node.Document
import Replica.Proofs.Number.Text

/-!
# Scalars as text

The text of a scalar ends by itself: a string at its closing quotation mark, a word at a comma or a
semicolon. So scalars with the same text are equal, whatever follows.
-/

namespace Replica

open Std

/-! ## Documents of scalars -/

private theorem Number.toInt?_of_zero
    {x : Number} (zero : x.magnitude = 0) : x.toInt? = some 0 := by
  have significand : x.significand = 0 := by
    rw [significand, zero]
    rfl
  have numerator : x.ratio.1 = 0 := by
    unfold ratio
    rw [significand]
    split
    · exact Nat.zero_mul _
    · rfl
  have absolute : x.natAbs? = some 0 := by
    unfold natAbs?
    dsimp only
    rw [numerator, Nat.zero_mod, if_pos rfl, Nat.zero_div]
  rw [toInt?, absolute]
  cases x.negative <;> rfl

/-- The order key tells numbers apart, but for the two zeros. -/
theorem Number.eq_or_zero_of_orderKey
    {x y : Number} (same : x.orderKey = y.orderKey) :
    x = y ∨ (x.magnitude = 0 ∧ y.magnitude = 0) := by
  obtain ⟨negative, magnitude, finite⟩ := x
  obtain ⟨otherNegative, otherMagnitude, otherFinite⟩ := y
  simp only [orderKey] at same ⊢
  cases negative <;> cases otherNegative <;> simp at same ⊢ <;> omega

namespace Node

private theorem scalarToJson_congr
    {left right : Scalar} (equal : compare left right = .eq) :
    scalarToJson left = scalarToJson right := by
  cases left with
  | bool value =>
      cases right with
      | bool other =>
          have order : compare value other = .eq := equal
          rw [LawfulEqOrd.eq_of_compare order]
      | number _ => cases equal
      | text _ => cases equal
  | text value =>
      cases right with
      | text other =>
          have order : compare value other = .eq := equal
          rw [LawfulEqOrd.eq_of_compare order]
      | number _ => cases equal
      | bool _ => cases equal
  | number value =>
      cases right with
      | bool _ => cases equal
      | text _ => cases equal
      | number other =>
          have order : compare value.orderKey other.orderKey = .eq := equal
          rcases Number.eq_or_zero_of_orderKey
            (LawfulEqOrd.eq_of_compare order) with rfl | ⟨zero, otherZero⟩
          · rfl
          · rw [scalarToJson, scalarToJson, numberToJson, numberToJson,
              Number.toInt?_of_zero zero, Number.toInt?_of_zero otherZero]
            rfl

private theorem compare_of_scalarToJson
    {left right : Scalar} (same : scalarToJson left = scalarToJson right) :
    compare left right = .eq := by
  obtain ⟨other, read, equal⟩ := scalarOf_scalarToJson left
  obtain ⟨another, otherRead, otherEqual⟩ := scalarOf_scalarToJson right
  rw [same, otherRead] at read
  cases read
  exact TransCmp.eq_trans equal (OrientedCmp.eq_symm otherEqual)

/-- The document of the value of a leaf, or of no data. -/
def valueToJson (value? : Option Scalar) : Json :=
  (value?.map scalarToJson).getD .null

private theorem scalarToJson_ne_null (value : Scalar) :
    scalarToJson value ≠ .null := by
  intro null
  obtain ⟨other, read, _⟩ := scalarOf_scalarToJson value
  rw [null] at read
  cases read

theorem valueToJson_eq_iff {left right : Option Scalar} :
    valueToJson left = valueToJson right ↔
      Option.Rel (fun a b => compare a b = .eq) left right := by
  constructor
  · intro same
    cases left with
    | none =>
        cases right with
        | none => exact Option.Rel.none
        | some value => exact absurd same.symm (scalarToJson_ne_null value)
    | some value =>
        cases right with
        | none => exact absurd same (scalarToJson_ne_null value)
        | some other => exact Option.Rel.some (compare_of_scalarToJson same)
  · rintro (equal | _)
    · exact scalarToJson_congr equal
    · rfl

/-- A node is a scalar or nothing. -/
def Simple (node : Node) : Prop :=
  node.isEmpty = true ∨ node.isLeaf = true

theorem toJson_of_simple
    {node : Node} (simple : node.Simple) :
    toJson false node = valueToJson node.value? := by
  cases node with
  | leaf value priority =>
      rw [toJson]
      rfl
  | branch children priority =>
      have childless : children.isEmpty = true :=
        simple.resolve_right (by rintro ⟨⟩)
      rw [toJson, if_pos childless]
      rfl

theorem dataEq_iff_of_simple
    {left right : Node} (leftSimple : left.Simple)
    (rightSimple : right.Simple) :
    left.dataEq right = true ↔
      Option.Rel (fun a b => compare a b = .eq) left.value? right.value? := by
  refine ⟨value?_of_dataEq, fun related => ?_⟩
  cases left with
  | leaf value _ =>
      cases right with
      | leaf other _ =>
          cases related with
          | some equal => exact leaf_dataEq_leaf.mpr equal
      | branch _ _ => cases related
  | branch children _ =>
      cases right with
      | leaf _ _ => cases related
      | branch others _ =>
          have childless := List.isEmpty_iff.mp
            (leftSimple.resolve_right (by rintro ⟨⟩))
          have otherChildless := List.isEmpty_iff.mp
            (rightSimple.resolve_right (by rintro ⟨⟩))
          subst childless
          subst otherChildless
          rfl

end Node

/-! ## Words -/

namespace Json

/-- The characters that come after a written scalar, and the mark of strings. -/
def stops : List Char :=
  [',', ';', '\x22']

/-- A text is the word of a scalar. -/
structure Spells (word : List Char) (value : Json) : Prop where
  read : wordToken? word = some (.scalar value)
  free : ∀ c ∈ word, c ∉ stops

private theorem spells_number
    {word : List Char} {value : Json}
    (plain : ∀ c ∈ word, c.isDigit = true ∨ c ∈ ['.', 'e', '+', '-'])
    (read : numberValue? word = some value) : Spells word value := by
  have unlike {c : Char} (member : c ∈ word) {other : List Char}
      (foreign : ∀ d ∈ other, d.isDigit = false ∧ d ∉ ['.', 'e', '+', '-']) :
      c ∉ other := by
    intro inOther
    obtain ⟨notDigit, notMark⟩ := foreign c inOther
    rcases plain c member with digit | mark
    · rw [notDigit] at digit
      cases digit
    · exact notMark mark
  have notName (name : List Char)
      (foreign : ∃ c ∈ name, c.isDigit = false ∧ c ∉ ['.', 'e', '+', '-']) :
      word ≠ name := by
    rintro rfl
    obtain ⟨c, member, strange⟩ := foreign
    exact @unlike c member [c] (by simpa using strange)
      List.mem_cons_self
  refine ⟨?_, fun c member =>
    unlike member (List.all_iff_forall_prop.mp rfl)⟩
  rw [wordToken?, if_neg (notName _ ⟨'n', by decide⟩),
    if_neg (notName _ ⟨'t', by decide⟩), if_neg (notName _ ⟨'f', by decide⟩),
    read]
  rfl

private theorem plain_toString
    {n : Int} {c : Char} (member : c ∈ (toString n).toList) :
    c.isDigit = true ∨ c ∈ ['.', 'e', '+', '-'] := by
  rw [toList_toString_int] at member
  rcases List.mem_append.mp member with sign | digit
  · split at sign
    · cases List.mem_singleton.mp sign
      exact Or.inr (by decide)
    · cases sign
  · exact Or.inl
      (Nat.isDigit_of_mem_toDigits (by omega) (by omega) digit)

/-- A scalar that is no text is written as a word. -/
theorem spells_value
    {value? : Option Scalar} (noText : ∀ text, value? ≠ some (.text text)) :
    Spells (Node.valueToJson value?).compact.toList
      (Node.valueToJson value?) := by
  cases value? with
  | none => exact ⟨rfl, List.all_iff_forall_prop.mp rfl⟩
  | some value =>
      cases value with
      | text text => exact absurd rfl (noText text)
      | bool value =>
          cases value <;> exact ⟨rfl, List.all_iff_forall_prop.mp rfl⟩
      | number value =>
          have asDecimal : Spells (Json.decimal value).compact.toList
              (.decimal value) :=
            spells_number (fun _ => Number.plain_text)
              (Number.numberValue?_text value)
          change Spells (Node.numberToJson value).compact.toList
            (Node.numberToJson value)
          unfold Node.numberToJson
          split
          · split
            · rename_i fits
              rw [compact]
              refine spells_number (fun _ => plain_toString)
                (numberValue?_toString ?_)
              rw [Node.maxExactInteger] at fits
              have size : UInt64.size / 2 = 0x8000000000000000 := by decide
              omega
            · exact asDecimal
          · exact asDecimal

/-- What follows a written scalar. -/
def Ended (rest : List Char) : Prop :=
  ∀ c ∈ rest.head?, c ∈ stops

private theorem append_inj_of_ended
    {left right u v : List Char} (leftFree : ∀ c ∈ left, c ∉ stops)
    (rightFree : ∀ c ∈ right, c ∉ stops) (uEnded : Ended u)
    (vEnded : Ended v) (same : left ++ u = right ++ v) :
    left = right ∧ u = v := by
  have apart {shorter between rest other : List Char}
      (free : ∀ c ∈ shorter ++ between, c ∉ stops) (ended : Ended rest)
      (inRest : rest = between ++ other) : between = [] := by
    subst inRest
    cases between with
    | nil => rfl
    | cons c between =>
        exact absurd (ended c rfl)
          (free c (List.mem_append_right _ List.mem_cons_self))
  refine append_inj_of_apart same ?_ ?_
  · rintro between rfl inRest
    exact apart rightFree uEnded inRest
  · rintro between rfl inRest
    exact apart leftFree vEnded inRest

private theorem Spells.not_string
    {word : List Char} {value : Json} (spells : Spells word value)
    {text : String} {u v : List Char} :
    word ++ u ≠ (stringText text).toList ++ v := by
  intro same
  rw [toList_stringText, List.cons_append] at same
  cases word with
  | nil =>
      have read := spells.read
      cases read
  | cons c word =>
      have isQuote : c = '\x22' := (List.cons.inj same).1
      rw [isQuote] at spells
      exact spells.free '\x22' List.mem_cons_self (by decide)

/-- A written scalar ends where it can be seen, so it tells the scalar. -/
theorem compact_append_inj
    {left right : Option Scalar} {u v : List Char}
    (uEnded : Ended u) (vEnded : Ended v)
    (same : (Node.valueToJson left).compact.toList ++ u =
      (Node.valueToJson right).compact.toList ++ v) :
    Node.valueToJson left = Node.valueToJson right ∧ u = v := by
  by_cases leftText : ∃ text, left = some (.text text)
  · obtain ⟨text, rfl⟩ := leftText
    by_cases rightText : ∃ other, right = some (.text other)
    · obtain ⟨other, rfl⟩ := rightText
      obtain ⟨rfl, rest⟩ := stringText_append_inj same
      exact ⟨rfl, rest⟩
    · exact absurd same.symm
        (spells_value (not_exists.mp rightText)).not_string
  · have leftSpells := spells_value (not_exists.mp leftText)
    by_cases rightText : ∃ other, right = some (.text other)
    · obtain ⟨other, rfl⟩ := rightText
      exact absurd same leftSpells.not_string
    · have rightSpells := spells_value (not_exists.mp rightText)
      obtain ⟨words, rest⟩ := append_inj_of_ended leftSpells.free
        rightSpells.free uEnded vEnded same
      have read := leftSpells.read
      rw [words, rightSpells.read] at read
      exact ⟨(Token.scalar.inj (Option.some.inj read)).symm, rest⟩

end Json

end Replica
