import Replica.Json.Reader
import Replica.Json.Writer

/-!
# Where written values end

A written string ends at its closing quotation mark, which no written character begins with, so
what follows it never runs into it. A written word ends where a character comes that no word
holds.
-/

namespace Replica

/-- Where neither of two beginnings can run into what follows the other one, they are the same. -/
theorem append_inj_of_apart
    {left right u v : List Char} (same : left ++ u = right ++ v)
    (rightApart : ∀ between, right = left ++ between → u = between ++ v →
      between = [])
    (leftApart : ∀ between, left = right ++ between → v = between ++ u →
      between = []) : left = right ∧ u = v := by
  rcases List.append_eq_append_iff.mp same with
    ⟨between, isLonger, isRest⟩ | ⟨between, isLonger, isRest⟩
  · have nothing := rightApart between isLonger isRest
    subst nothing
    rw [List.append_nil] at isLonger
    exact ⟨isLonger.symm, isRest⟩
  · have nothing := leftApart between isLonger isRest
    subst nothing
    rw [List.append_nil] at isLonger
    exact ⟨isLonger, isRest.symm⟩

namespace Json

/-! ## Characters -/

def escaped? : List Char → Option (Char × List Char)
  | 'u' :: _ :: _ :: high :: low :: rest => do
    let high ← hexValue? high
    let low ← hexValue? low
    return (Char.ofNat (16 * high + low), rest)
  | c :: rest => (simpleEscape? c).map fun plain => (plain, rest)
  | [] => none

def unescaped? : List Char → Option (Char × List Char)
  | [] => none
  | c :: rest => if c = '\\' then escaped? rest else some (c, rest)

private theorem unescaped?_controlText
    {c : Char} (control : c.toNat < 0x20) (rest : List Char) :
    unescaped? ((controlText c).toList ++ rest) = some (c, rest) := by
  have written : ∀ n < 0x20, (controlText (Char.ofNat n)).toList =
        ['\\', 'u', '0', '0', Nat.digitChar (n / 16),
          Nat.digitChar (n % 16)] ∧
      hexValue? (Nat.digitChar (n / 16)) = some (n / 16) ∧
      hexValue? (Nat.digitChar (n % 16)) = some (n % 16) := by
    decide
  obtain ⟨text, high, low⟩ := written c.toNat control
  rw [Char.ofNat_toNat] at text
  rw [text]
  change (do
    let high ← hexValue? (Nat.digitChar (c.toNat / 16))
    let low ← hexValue? (Nat.digitChar (c.toNat % 16))
    return (Char.ofNat (16 * high + low), rest)) = _
  rw [high, low]
  change some (Char.ofNat (16 * (c.toNat / 16) + c.toNat % 16), rest) = _
  rw [Nat.div_add_mod, Char.ofNat_toNat]

/-- A written character is taken as it was, and nothing of what follows it. -/
theorem unescaped?_charText (c : Char) (rest : List Char) :
    unescaped? ((charText c).toList ++ rest) = some (c, rest) := by
  by_cases backslash : c = '\\'
  · subst backslash
    rfl
  unfold charText
  iterate 6
    split
    · rename_i same
      subst same
      rfl
  split
  · rename_i control
    exact unescaped?_controlText control rest
  · rw [Char.toString_eq_singleton, String.toList_singleton]
    exact if_neg backslash

/-- No written character begins like the end of a string. -/
theorem charText_ne_quote
    (c : Char) (rest other : List Char) :
    (charText c).toList ++ rest ≠ '\x22' :: other := by
  intro same
  have taken := unescaped?_charText c rest
  rw [same] at taken
  change some ('\x22', other) = some (c, rest) at taken
  cases taken
  cases same

/-! ## Strings -/

/-- The characters inside a written string. -/
def written (characters : List Char) : List Char :=
  characters.flatMap fun c => (charText c).toList

private theorem written_append_inj
    {left right u v : List Char}
    (same : written left ++ '\x22' :: u = written right ++ '\x22' :: v) :
    left = right ∧ u = v := by
  unfold written at same
  induction left generalizing right with
  | nil =>
      cases right with
      | nil =>
          cases same
          exact ⟨rfl, rfl⟩
      | cons d right =>
          rw [List.flatMap_cons, List.append_assoc] at same
          exact absurd same.symm (charText_ne_quote d _ u)
  | cons c left inductionHypothesis =>
      rw [List.flatMap_cons, List.append_assoc] at same
      cases right with
      | nil => exact absurd same (charText_ne_quote c _ v)
      | cons d right =>
          rw [List.flatMap_cons, List.append_assoc] at same
          have taken := unescaped?_charText c
            (left.flatMap (fun c => (charText c).toList) ++ '\x22' :: u)
          rw [same, unescaped?_charText] at taken
          obtain ⟨rfl, rest⟩ := Prod.mk.inj (Option.some.inj taken)
          obtain ⟨rfl, equal⟩ := inductionHypothesis rest.symm
          exact ⟨rfl, equal⟩

theorem toList_stringText (text : String) :
    (stringText text).toList =
      '\x22' :: (written text.toList ++ ['\x22']) := by
  rw [stringText, String.toList_append, String.toList_append,
    String.toList_join, List.flatMap_map]
  rfl

/-- A written string does not run into what follows it. -/
theorem stringText_append_inj
    {left right : String} {u v : List Char}
    (same : (stringText left).toList ++ u = (stringText right).toList ++ v) :
    left = right ∧ u = v := by
  rw [toList_stringText, toList_stringText, List.cons_append,
    List.cons_append, List.append_assoc, List.append_assoc] at same
  obtain ⟨characters, rest⟩ :=
    written_append_inj (List.cons.inj same).2
  exact ⟨String.toList_injective characters, rest⟩

end Json

end Replica
