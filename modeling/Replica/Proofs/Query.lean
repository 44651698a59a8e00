import Replica.Proofs.Node.Display
import Replica.Proofs.Path
import Replica.Query

/-!
# What identifiers of selections tell

An identifier joins the index, the bounds and the limit, each after a mark of its own. Two
selections with the same identifier are equal as long as none of their keys holds such a mark. A
key may hold one, and then it is taken for the part that it looks like.
-/

namespace Replica

open Std Json

/-! ## Marks -/

/-- The letters of the parts behind the index. -/
def Selection.marks : List Char :=
  ['s', 'e', 'l']

/-- No part of an identifier seems to begin inside a text. -/
def Unmarked (text : List Char) : Prop :=
  ∀ mark ∈ Selection.marks, ¬ [';', mark, '='] <:+: text

/-- Nothing follows, or one of the given parts. -/
def Marked (marks rest : List Char) : Prop :=
  rest = [] ∨ ∃ mark ∈ marks, ∃ part, rest = ';' :: mark :: '=' :: part

private theorem Marked.mono
    {marks others rest : List Char} (marked : Marked marks rest)
    (more : ∀ mark ∈ marks, mark ∈ others) : Marked others rest :=
  marked.imp_right fun ⟨mark, member, part⟩ => ⟨mark, more mark member, part⟩

/-- What stands before a mark and holds none ends at that mark. -/
theorem append_inj_of_marked
    {left right u v : List Char} (leftUnmarked : Unmarked left)
    (rightUnmarked : Unmarked right) (uMarked : Marked Selection.marks u)
    (vMarked : Marked Selection.marks v) (same : left ++ u = right ++ v) :
    left = right ∧ u = v := by
  have apart {shorter between rest other : List Char}
      (unmarked : Unmarked (shorter ++ between))
      (marked : Marked Selection.marks rest)
      (otherMarked : Marked Selection.marks other)
      (inRest : rest = between ++ other) : between = [] := by
    rcases marked with rfl | ⟨mark, member, part, rfl⟩
    · exact (List.append_eq_nil_iff.mp inRest.symm).1
    -- A part that begins in between would end behind it, where another one must begin.
    match between with
    | [] => rfl
    | [_] =>
        obtain ⟨_, rfl⟩ := List.cons.inj inRest
        rcases otherMarked with none | ⟨_, _, _, begins⟩
        · cases none
        · obtain ⟨rfl, _⟩ := List.cons.inj begins
          exact absurd member (by decide)
    | [_, _] =>
        obtain ⟨_, inner⟩ := List.cons.inj inRest
        obtain ⟨_, rfl⟩ := List.cons.inj inner
        rcases otherMarked with none | ⟨_, _, _, begins⟩
        · cases none
        · cases (List.cons.inj begins).1
    | _ :: _ :: _ :: more =>
        cases inRest
        exact absurd ⟨shorter, more, by simp⟩ (unmarked mark member)
  refine append_inj_of_apart same ?_ ?_
  · rintro between rfl inRest
    exact apart rightUnmarked uMarked vMarked inRest
  · rintro between rfl inRest
    exact apart leftUnmarked vMarked uMarked inRest

/-! ## Bounds -/

namespace Bound

/-- A bound on a scalar, or on no data, whose key holds no mark. -/
structure Clear (bound : Bound) : Prop where
  simple : bound.value.Simple
  key : ∀ key ∈ bound.key?, Unmarked key.text.toList

/-- The key of a bound as it is written. -/
def keyText (key? : Option Key) : List Char :=
  key?.elim [] fun key => ',' :: key.text.toList

/-- A bound that makes sense has a scalar or no data. -/
theorem simple_of_fault?
    {index : Index} {bound : Bound} (sound : bound.fault? index = none) :
    bound.value.Simple := by
  unfold fault? at sound
  split at sound
  · cases sound
  · rename_i scalar
    cases noData : bound.value.isEmpty with
    | true => exact Or.inl noData
    | false =>
        rw [noData] at scalar
        exact Or.inr (by simpa using scalar)

private theorem toList_identifier
    {bound : Bound} (simple : bound.value.Simple) :
    bound.identifier.toList =
      (Node.valueToJson bound.value.value?).compact.toList ++
        keyText bound.key? := by
  unfold identifier
  rw [Node.display, Node.toJson_of_simple simple]
  cases bound.key? with
  | none => exact (List.append_nil _).symm
  | some key =>
      dsimp only
      rw [String.toList_append, String.toList_append, List.append_assoc]
      rfl

private theorem ended_of_marked
    {marks rest : List Char} (marked : Marked marks rest) : Ended rest := by
  rcases marked with rfl | ⟨mark, _, part, rfl⟩
  · rintro c ⟨⟩
  · rintro c ⟨⟩
    decide

private theorem keyText_append_inj
    {left right : Option Key} {u v : List Char}
    (leftUnmarked : ∀ key ∈ left, Unmarked key.text.toList)
    (rightUnmarked : ∀ key ∈ right, Unmarked key.text.toList)
    (uMarked : Marked Selection.marks u) (vMarked : Marked Selection.marks v)
    (same : keyText left ++ u = keyText right ++ v) :
    left = right ∧ u = v := by
  have noComma {rest other : List Char}
      (marked : Marked Selection.marks rest) : rest ≠ ',' :: other := by
    rintro rfl
    rcases marked with none | ⟨_, _, _, begins⟩
    · cases none
    · cases (List.cons.inj begins).1
  cases left with
  | none =>
      cases right with
      | none => exact ⟨rfl, same⟩
      | some key => exact absurd same (noComma uMarked)
  | some key =>
      cases right with
      | none => exact absurd same.symm (noComma vMarked)
      | some other =>
          obtain ⟨texts, rest⟩ := append_inj_of_marked
            (leftUnmarked key rfl) (rightUnmarked other rfl) uMarked vMarked
            (List.cons.inj same).2
          rw [Key.text_injective (String.toList_injective texts)]
          exact ⟨rfl, rest⟩

/-- The text of a bound tells the bound, whatever parts follow. -/
theorem identifier_append_inj
    {left right : Bound} (leftClear : left.Clear) (rightClear : right.Clear)
    {u v : List Char} (uMarked : Marked Selection.marks u)
    (vMarked : Marked Selection.marks v)
    (same : left.identifier.toList ++ u = right.identifier.toList ++ v) :
    left.same right = true ∧ u = v := by
  have ended (key? : Option Key) {rest : List Char}
      (marked : Marked Selection.marks rest) :
      Ended (keyText key? ++ rest) := by
    cases key? with
    | none => exact ended_of_marked marked
    | some key =>
        rintro c ⟨⟩
        decide
  rw [toList_identifier leftClear.simple,
    toList_identifier rightClear.simple, List.append_assoc,
    List.append_assoc] at same
  obtain ⟨values, rest⟩ := compact_append_inj (ended _ uMarked)
    (ended _ vMarked) same
  obtain ⟨keys, rest⟩ := keyText_append_inj leftClear.key rightClear.key
    uMarked vMarked rest
  refine ⟨?_, rest⟩
  rw [Bound.same, Bool.and_eq_true, beq_iff_eq]
  exact ⟨(Node.dataEq_iff_of_simple leftClear.simple
    rightClear.simple).mpr (Node.valueToJson_eq_iff.mp values), keys⟩

private theorem identifier_congr
    {left right : Bound} (leftSimple : left.value.Simple)
    (rightSimple : right.value.Simple)
    (equal : left.same right = true) :
    left.identifier = right.identifier := by
  rw [Bound.same, Bool.and_eq_true, beq_iff_eq] at equal
  refine String.toList_injective ?_
  rw [toList_identifier leftSimple, toList_identifier rightSimple,
    Node.valueToJson_eq_iff.mpr
      ((Node.dataEq_iff_of_simple leftSimple rightSimple).mp equal.1),
    equal.2]

end Bound

/-! ## Parts -/

/-- The part of an identifier behind a mark, if there is one. -/
def markedPart (mark : Char) (text? : Option String) : List Char :=
  text?.elim [] fun text => ';' :: mark :: '=' :: text.toList

private theorem marked_markedPart
    (mark : Char) {marks rest : List Char} (text? : Option String)
    (marked : Marked marks rest) :
    Marked (mark :: marks) (markedPart mark text? ++ rest) := by
  cases text? with
  | none => exact marked.mono fun _ => List.mem_cons_of_mem mark
  | some text => exact Or.inr ⟨mark, List.mem_cons_self, _, rfl⟩

/-- A part is there or not, and so on both sides. -/
theorem markedPart_append_inj
    {mark : Char} {marks u v : List Char} (fresh : mark ∉ marks)
    (uMarked : Marked marks u) (vMarked : Marked marks v)
    {left right : Option String}
    (same : markedPart mark left ++ u = markedPart mark right ++ v) :
    (left = none ∧ right = none ∧ u = v) ∨
      ∃ text other, left = some text ∧ right = some other ∧
        text.toList ++ u = other.toList ++ v := by
  have absent {rest part : List Char} (marked : Marked marks rest) :
      rest ≠ ';' :: mark :: '=' :: part := by
    rintro rfl
    rcases marked with none | ⟨other, member, _, begins⟩
    · cases none
    · obtain ⟨rfl, _⟩ := List.cons.inj (List.cons.inj begins).2
      exact fresh member
  cases left with
  | none =>
      cases right with
      | none => exact Or.inl ⟨rfl, rfl, same⟩
      | some other => exact absurd same (absent uMarked)
  | some text =>
      cases right with
      | none => exact absurd same.symm (absent vMarked)
      | some other =>
          refine Or.inr ⟨text, other, rfl, rfl, ?_⟩
          exact (List.cons.inj (List.cons.inj (List.cons.inj same).2).2).2

private theorem toList_intercalate
    (first : String) (rest : List String) :
    (";".intercalate (first :: rest)).toList =
      first.toList ++ rest.flatMap fun part => ';' :: part.toList := by
  induction rest generalizing first with
  | nil =>
      rw [String.intercalate_singleton, List.flatMap_nil, List.append_nil]
  | cons second rest inductionHypothesis =>
      rw [String.intercalate_cons_cons, String.toList_append,
        String.toList_append, inductionHypothesis, List.flatMap_cons,
        List.append_assoc]
      rfl

def Limit.text : Limit → String
  | .first count => "f" ++ toString count
  | .last count => "l" ++ toString count

private theorem eq_of_toString
    {n m : Nat} (same : (toString n).toList = (toString m).toList) :
    n = m := by
  have value := congrArg naturalOf same
  rwa [Nat.toString_eq_ofList_toDigits, Nat.toString_eq_ofList_toDigits,
    String.toList_ofList, String.toList_ofList, naturalOf_toDigits,
    naturalOf_toDigits] at value

private theorem Limit.text_injective : Function.Injective Limit.text := by
  intro left right same
  have characters := congrArg String.toList same
  cases left with
  | first count =>
      rw [text, String.toList_append] at characters
      cases right with
      | first other =>
          rw [text, String.toList_append] at characters
          rw [eq_of_toString (List.append_cancel_left characters)]
      | last other =>
          rw [text, String.toList_append] at characters
          cases (List.cons.inj characters).1
  | last count =>
      rw [text, String.toList_append] at characters
      cases right with
      | first other =>
          rw [text, String.toList_append] at characters
          cases (List.cons.inj characters).1
      | last other =>
          rw [text, String.toList_append] at characters
          rw [eq_of_toString (List.append_cancel_left characters)]

namespace Selection

/-- The keys of the index and of the bounds are fit for data. -/
structure Keyed (selection : Selection) : Prop where
  path : ∀ path, selection.index = .child path →
    ∀ key ∈ path, key.isValid = true
  lower : ∀ bound ∈ selection.lower?, ∀ key ∈ bound.key?,
    key.isValid = true
  upper : ∀ bound ∈ selection.upper?, ∀ key ∈ bound.key?,
    key.isValid = true

/-- No key of the index and of the bounds holds a mark. -/
structure Clear (selection : Selection) : Prop where
  index : Unmarked selection.index.identifier.toList
  lower : ∀ bound ∈ selection.lower?, ∀ key ∈ bound.key?,
    Unmarked key.text.toList
  upper : ∀ bound ∈ selection.upper?, ∀ key ∈ bound.key?,
    Unmarked key.text.toList

variable {selection : Selection}

/-- The bounds of a selection that makes sense make sense. -/
theorem fault?_of_held
    (sound : selection.fault? = none) {bound : Bound}
    (held : selection.lower? = some bound ∨
      selection.upper? = some bound) :
    bound.fault? selection.index = none := by
  unfold fault? at sound
  split at sound
  · cases sound
  · obtain ⟨lowerSound, upperSound⟩ := Option.or_eq_none_iff.mp sound
    rcases held with isLower | isUpper
    · rwa [isLower] at lowerSound
    · rwa [isUpper] at upperSound

private theorem simple_of_fault?
    (sound : selection.fault? = none) {bound : Bound}
    (held : selection.lower? = some bound ∨
      selection.upper? = some bound) : bound.value.Simple :=
  Bound.simple_of_fault? (fault?_of_held sound held)

/-- The parts of an identifier behind the index. -/
def parts (selection : Selection) : List Char :=
  markedPart 's' (selection.lower?.map Bound.identifier) ++
    (markedPart 'e' (selection.upper?.map Bound.identifier) ++
      (markedPart 'l' (selection.limit?.map Limit.text) ++ []))

private theorem flatMap_bound (mark : Char) (bound? : Option Bound) :
    (bound?.map fun bound =>
        String.ofList [mark, '='] ++ bound.identifier).toList.flatMap
      (fun part => ';' :: part.toList) =
      markedPart mark (bound?.map Bound.identifier) := by
  cases bound? with
  | none => rfl
  | some bound =>
      change (';' :: (String.ofList [mark, '='] ++
        bound.identifier).toList) ++ [] = _
      rw [List.append_nil, String.toList_append, String.toList_ofList]
      rfl

private theorem flatMap_limitParts (limit? : Option Limit) :
    (limitParts limit?).flatMap (fun part => ';' :: part.toList) =
      markedPart 'l' (limit?.map Limit.text) := by
  cases limit? with
  | none => rfl
  | some limit =>
      cases limit with
      | first count =>
          change (';' :: ("l=f" ++ toString count).toList) ++ [] =
            ';' :: 'l' :: '=' :: ("f" ++ toString count).toList
          rw [List.append_nil, String.toList_append, String.toList_append]
          rfl
      | last count =>
          change (';' :: ("l=l" ++ toString count).toList) ++ [] =
            ';' :: 'l' :: '=' :: ("l" ++ toString count).toList
          rw [List.append_nil, String.toList_append, String.toList_append]
          rfl

private theorem identifier_of_isDefault
    (plain : selection.isDefault = true) :
    selection.identifier = "default" := by
  rw [identifier, plain, if_pos rfl]

private theorem toList_identifier
    (special : selection.isDefault = false) :
    selection.identifier.toList =
      'i' :: '=' :: (selection.index.identifier.toList ++
        selection.parts) := by
  rw [identifier, special, if_neg Bool.false_ne_true, List.append_assoc,
    List.append_assoc, List.singleton_append, toList_intercalate,
    List.flatMap_append, List.flatMap_append, flatMap_limitParts,
    String.toList_append, parts, List.append_nil]
  exact congrArg₂ (fun lower upper => 'i' :: '=' ::
      (selection.index.identifier.toList ++ (lower ++ (upper ++
        markedPart 'l' (selection.limit?.map Limit.text)))))
    (flatMap_bound 's' selection.lower?) (flatMap_bound 'e' selection.upper?)

/-! ## Selections -/

/-- The text of an index tells the index. -/
theorem eq_of_index
    {left right : Index}
    (leftKeyed : ∀ path, left = .child path →
      ∀ key ∈ path, key.isValid = true)
    (rightKeyed : ∀ path, right = .child path →
      ∀ key ∈ path, key.isValid = true)
    (same : left.identifier = right.identifier) : left = right := by
  have noName {path : Path} {name : String}
      (front : name.toList.head? = some '.') : Path.text path ≠ name := by
    rintro rfl
    rw [Path.head?_text] at front
    cases front
  cases left with
  | child path =>
      cases right with
      | child other =>
          rw [Path.text_injective (leftKeyed path rfl)
            (rightKeyed other rfl) same]
      | priority => exact absurd same (noName rfl)
      | key => exact absurd same (noName rfl)
      | value => exact absurd same (noName rfl)
  | priority =>
      cases right with
      | child other => exact absurd same.symm (noName rfl)
      | priority => rfl
      | key => exact absurd same (by decide)
      | value => exact absurd same (by decide)
  | key =>
      cases right with
      | child other => exact absurd same.symm (noName rfl)
      | priority => exact absurd same (by decide)
      | key => rfl
      | value => exact absurd same (by decide)
  | value =>
      cases right with
      | child other => exact absurd same.symm (noName rfl)
      | priority => exact absurd same (by decide)
      | key => exact absurd same (by decide)
      | value => rfl

private theorem sameOptional_of_parts
    {left right : Option Bound}
    (leftClear : ∀ bound ∈ left, bound.Clear)
    (rightClear : ∀ bound ∈ right, bound.Clear)
    {mark : Char} {others u v : List Char} (fresh : mark ∉ others)
    (uMarked : Marked others u) (vMarked : Marked others v)
    (known : ∀ other ∈ others, other ∈ marks)
    (same : markedPart mark (left.map Bound.identifier) ++ u =
      markedPart mark (right.map Bound.identifier) ++ v) :
    Bound.sameOptional left right = true ∧ u = v := by
  rcases markedPart_append_inj fresh uMarked vMarked same with
    ⟨noLeft, noRight, rest⟩ | ⟨text, other, isLeft, isRight, texts⟩
  · rw [Option.map_eq_none_iff.mp noLeft, Option.map_eq_none_iff.mp noRight]
    exact ⟨rfl, rest⟩
  · obtain ⟨bound, rfl, rfl⟩ := Option.map_eq_some_iff.mp isLeft
    obtain ⟨otherBound, rfl, rfl⟩ := Option.map_eq_some_iff.mp isRight
    exact Bound.identifier_append_inj (leftClear bound rfl)
      (rightClear otherBound rfl) (uMarked.mono known) (vMarked.mono known)
      texts

private theorem same_iff {left right : Selection} :
    left.same right = true ↔
      left.index = right.index ∧
      Bound.sameOptional left.lower? right.lower? = true ∧
      Bound.sameOptional left.upper? right.upper? = true ∧
      left.limit? = right.limit? := by
  simp only [same, Bool.and_eq_true, beq_iff_eq, and_assoc]

private theorem isDefault_iff :
    selection.isDefault = true ↔
      selection.index = .priority ∧ selection.lower? = none ∧
      selection.upper? = none ∧ selection.limit? = none := by
  simp only [isDefault, keepsAll, Bool.and_eq_true, beq_iff_eq,
    Option.isNone_iff_eq_none]
  tauto

private theorem map_identifier_congr
    {left right : Option Bound}
    (leftSimple : ∀ bound ∈ left, bound.value.Simple)
    (rightSimple : ∀ bound ∈ right, bound.value.Simple)
    (equal : Bound.sameOptional left right = true) :
    left.map Bound.identifier = right.map Bound.identifier := by
  cases left with
  | none =>
      cases right with
      | none => rfl
      | some _ => cases equal
  | some bound =>
      cases right with
      | none => cases equal
      | some other =>
          exact congrArg some (Bound.identifier_congr (leftSimple bound rfl)
            (rightSimple other rfl) equal)

private theorem isNone_of_sameOptional
    {left right : Option Bound}
    (equal : Bound.sameOptional left right = true) :
    left.isNone = right.isNone := by
  cases left <;> cases right
  · rfl
  · cases equal
  · cases equal
  · rfl

private theorem identifier_congr
    {left right : Selection} (leftSound : left.fault? = none)
    (rightSound : right.fault? = none)
    (equal : left.same right = true) :
    left.identifier = right.identifier := by
  obtain ⟨index, lower, upper, limit⟩ := same_iff.mp equal
  have sameDefault : left.isDefault = right.isDefault := by
    rw [isDefault, isDefault, keepsAll, keepsAll, index, limit,
      isNone_of_sameOptional lower, isNone_of_sameOptional upper]
  cases special : left.isDefault with
  | true =>
      rw [special] at sameDefault
      rw [identifier_of_isDefault special,
        identifier_of_isDefault sameDefault.symm]
  | false =>
      rw [special] at sameDefault
      refine String.toList_injective ?_
      rw [toList_identifier special, toList_identifier sameDefault.symm,
        parts, parts, index, limit,
        map_identifier_congr
          (fun _ held => simple_of_fault? leftSound (Or.inl held))
          (fun _ held => simple_of_fault? rightSound (Or.inl held)) lower,
        map_identifier_congr
          (fun _ held => simple_of_fault? leftSound (Or.inr held))
          (fun _ held => simple_of_fault? rightSound (Or.inr held)) upper]

private theorem clear_lower
    (sound : selection.fault? = none) (clear : selection.Clear) :
    ∀ bound ∈ selection.lower?, bound.Clear := fun bound held =>
  ⟨simple_of_fault? sound (Or.inl held), clear.lower bound held⟩

private theorem clear_upper
    (sound : selection.fault? = none) (clear : selection.Clear) :
    ∀ bound ∈ selection.upper?, bound.Clear := fun bound held =>
  ⟨simple_of_fault? sound (Or.inr held), clear.upper bound held⟩

/-- Part by part, the identifier tells the selection. -/
theorem same_of_identifier
    {left right : Selection} (leftSpecial : left.isDefault = false)
    (rightSpecial : right.isDefault = false)
    (leftSound : left.fault? = none) (rightSound : right.fault? = none)
    (leftKeyed : left.Keyed) (rightKeyed : right.Keyed)
    (leftClear : left.Clear) (rightClear : right.Clear)
    (same : left.identifier = right.identifier) :
    left.same right = true := by
  have characters := congrArg String.toList same
  rw [toList_identifier leftSpecial, toList_identifier rightSpecial]
    at characters
  have joined := (List.cons.inj (List.cons.inj characters).2).2
  have nothing : Marked [] [] := Or.inl rfl
  have limitMarked (selection : Selection) :=
    marked_markedPart 'l' (selection.limit?.map Limit.text) nothing
  have upperMarked (selection : Selection) :=
    marked_markedPart 'e'
      (selection.upper?.map Bound.identifier) (limitMarked selection)
  have lowerMarked (selection : Selection) :=
    marked_markedPart 's'
      (selection.lower?.map Bound.identifier) (upperMarked selection)
  obtain ⟨indices, joined⟩ := append_inj_of_marked leftClear.index
    rightClear.index (lowerMarked left) (lowerMarked right) joined
  obtain ⟨lower, joined⟩ := sameOptional_of_parts
    (clear_lower leftSound leftClear) (clear_lower rightSound rightClear)
    (by decide) (upperMarked left) (upperMarked right)
    (fun _ => List.mem_cons_of_mem _) joined
  obtain ⟨upper, joined⟩ := sameOptional_of_parts
    (clear_upper leftSound leftClear) (clear_upper rightSound rightClear)
    (by decide) (limitMarked left) (limitMarked right)
    (fun _ last => List.mem_cons_of_mem _ (List.mem_cons_of_mem _ last)) joined
  refine same_iff.mpr ⟨eq_of_index leftKeyed.path rightKeyed.path
    (String.toList_injective indices), lower, upper, ?_⟩
  rcases markedPart_append_inj List.not_mem_nil nothing nothing joined with
    ⟨noLeft, noRight, _⟩ | ⟨text, other, isLeft, isRight, texts⟩
  · rw [Option.map_eq_none_iff.mp noLeft, Option.map_eq_none_iff.mp noRight]
  · rw [List.append_nil, List.append_nil] at texts
    have equal := String.toList_injective texts
    rw [← equal, ← isLeft] at isRight
    exact (Option.map_injective Limit.text_injective isRight).symm

/-- As long as no key holds a mark, selections with the same identifier are equal. -/
theorem identifier_eq_iff
    {left right : Selection} (leftSound : left.fault? = none)
    (rightSound : right.fault? = none) (leftKeyed : left.Keyed)
    (rightKeyed : right.Keyed) (leftClear : left.Clear)
    (rightClear : right.Clear) :
    left.identifier = right.identifier ↔ left.same right = true := by
  refine ⟨fun same => ?_, identifier_congr leftSound rightSound⟩
  have noDefault {selection : Selection}
      (special : selection.isDefault = false) :
      selection.identifier ≠ "default" := by
    intro named
    have characters := congrArg String.toList named
    rw [toList_identifier special] at characters
    cases (List.cons.inj characters).1
  cases leftDefault : left.isDefault with
  | true =>
      cases rightDefault : right.isDefault with
      | true =>
          obtain ⟨index, lower, upper, limit⟩ := isDefault_iff.mp leftDefault
          obtain ⟨otherIndex, otherLower, otherUpper, otherLimit⟩ :=
            isDefault_iff.mp rightDefault
          rw [same_iff, index, lower, upper, limit, otherIndex, otherLower,
            otherUpper, otherLimit]
          exact ⟨rfl, rfl, rfl, rfl⟩
      | false =>
          rw [identifier_of_isDefault leftDefault] at same
          exact absurd same.symm (noDefault rightDefault)
  | false =>
      cases rightDefault : right.isDefault with
      | true =>
          rw [identifier_of_isDefault rightDefault] at same
          exact absurd same (noDefault leftDefault)
      | false =>
          exact same_of_identifier leftDefault rightDefault leftSound
            rightSound leftKeyed rightKeyed leftClear rightClear same

/-- A lower bound on a text that looks like an upper bound. -/
def markedText : Selection where
  index := .child [⟨"a"⟩]
  lower? := some ⟨.ofScalar (.text "x;e=true"), some ⟨"k"⟩⟩

def bothBounds : Selection where
  index := .child [⟨"a"⟩]
  lower? := some ⟨.ofScalar (.text "x"), some ⟨"k"⟩⟩
  upper? := some ⟨.ofScalar (.bool true), none⟩

theorem identifier_eq_iff_marked_text :
    markedText.fault? = none ∧ bothBounds.fault? = none ∧
      markedText.Keyed ∧ bothBounds.Keyed ∧
      markedText.Clear ∧ bothBounds.Clear ∧
      (markedText.identifier = bothBounds.identifier ↔
        markedText.same bothBounds = true) ∧
      markedText.same bothBounds = false := by
  have keyed : markedText.Keyed ∧ bothBounds.Keyed := by
    refine ⟨⟨?_, ?_, ?_⟩, ⟨?_, ?_, ?_⟩⟩
    · rintro _ ⟨⟩
      decide
    · rintro _ ⟨⟩ _ ⟨⟩
      decide
    · rintro _ ⟨⟩
    · rintro _ ⟨⟩
      decide
    · rintro _ ⟨⟩ _ ⟨⟩
      decide
    · rintro _ ⟨⟩ _ ⟨⟩
  have clear : markedText.Clear ∧ bothBounds.Clear := by
    unfold markedText bothBounds
    refine ⟨⟨?_, ?_, ?_⟩, ⟨?_, ?_, ?_⟩⟩
    · exact List.all_iff_forall_prop.mp rfl
    · rintro _ ⟨⟩ _ ⟨⟩
      exact List.all_iff_forall_prop.mp rfl
    · rintro _ ⟨⟩
    · exact List.all_iff_forall_prop.mp rfl
    · rintro _ ⟨⟩ _ ⟨⟩
      exact List.all_iff_forall_prop.mp rfl
    · rintro _ ⟨⟩ _ ⟨⟩
  exact ⟨rfl, rfl, keyed.1, keyed.2, clear.1, clear.2,
    identifier_eq_iff rfl rfl keyed.1 keyed.2 clear.1 clear.2, by decide⟩

/-- An index at a key that looks like a lower bound. -/
def markedKey : Selection where
  index := .child [⟨"a;s=true"⟩]

def lowerBound : Selection where
  index := .child [⟨"a"⟩]
  lower? := some ⟨.ofScalar (.bool true), none⟩

/-- A key may hold a mark, and then two selections may have one identifier. -/
theorem identifier_ambiguous :
    ¬ ∀ left right : Selection, left.fault? = none → right.fault? = none →
      left.Keyed → right.Keyed →
      (left.identifier = right.identifier ↔ left.same right = true) := by
  intro unique
  have keyed : markedKey.Keyed ∧ lowerBound.Keyed := by
    refine ⟨⟨?_, ?_, ?_⟩, ⟨?_, ?_, ?_⟩⟩
    · rintro _ ⟨⟩
      decide
    · rintro _ ⟨⟩
    · rintro _ ⟨⟩
    · rintro _ ⟨⟩
      decide
    · rintro _ ⟨⟩ _ ⟨⟩
    · rintro _ ⟨⟩
  have joined : markedKey.identifier = lowerBound.identifier := by
    decide
  have equal := (unique markedKey lowerBound rfl rfl keyed.1 keyed.2).mp joined
  cases equal

end Selection

end Replica
