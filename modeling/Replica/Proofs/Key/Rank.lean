import Mathlib.Data.String.Basic
import Mathlib.Order.Compare
import Replica.Proofs.Key
import Replica.Proofs.Order

/-!
# Ranks of keys

The order of keys is strict and total on all texts, and a few rules say which of two keys comes
first: the two reserved names enclose all others, integers come before other texts, and among
themselves by value, by length and by spelling.
-/

namespace Replica.Key

open Std (OrientedCmp ReflOrd TransCmp)

/-! ## Texts that read as integers -/

/-- A run of one to ten decimal digits. -/
structure Run (digits : List Char) : Prop where
  nonempty : digits ≠ []
  short : digits.length ≤ 10
  decimal : ∀ c ∈ digits, c.isDigit = true

/-- The spellings of an integer: a run of digits, with a minus in front or without. -/
inductive Spells : List Char → Int → Prop
  | natural {digits : List Char} (run : Run digits) :
      Spells digits (Nat.ofDigitChars 10 digits 0)
  | negative {digits : List Char} (run : Run digits) :
      Spells ('-' :: digits) (-(Nat.ofDigitChars 10 digits 0 : Nat))

/-- A text reads as an integer if it spells it and the integer has 32 bits. -/
structure Reads (text : String) (value : Int) : Prop where
  spelled : Spells text.toList value
  lower : -2147483648 ≤ value
  upper : value ≤ 2147483647

private theorem digitsValue?_eq_some_iff {digits : List Char} {value : Nat} :
    digitsValue? digits = some value ↔
      Run digits ∧ Nat.ofDigitChars 10 digits 0 = value := by
  unfold digitsValue?
  rw [← Nat.ofDigitChars_eq_foldl]
  split
  · rename_i unfit
    refine iff_of_false nofun fun ⟨run, _⟩ => ?_
    simp only [Bool.or_eq_true, Bool.not_eq_true', List.isEmpty_iff,
      decide_eq_true_eq] at unfit
    rcases unfit with (empty | long) | other
    · exact run.nonempty empty
    · exact absurd run.short (by omega)
    · rw [List.all_eq_true.mpr run.decimal] at other
      cases other
  · rename_i fit
    rw [Option.some_inj]
    refine (and_iff_right ?_).symm
    simp only [Bool.or_eq_true, Bool.not_eq_true', List.isEmpty_iff,
      decide_eq_true_eq, not_or, Bool.not_eq_false, List.all_eq_true]
      at fit
    exact ⟨fit.1.1, by omega, fit.2⟩

/-- No run of digits starts with a minus. -/
theorem not_run_minus {digits : List Char} : ¬ Run ('-' :: digits) :=
  fun run => Bool.false_ne_true (run.decimal '-' List.mem_cons_self)

private theorem spells_minus_iff {digits : List Char} {value : Int} :
    Spells ('-' :: digits) value ↔
      Run digits ∧ -(Nat.ofDigitChars 10 digits 0 : Nat) = value := by
  constructor
  · intro spelled
    cases spelled with
    | natural run => exact absurd run not_run_minus
    | negative run => exact ⟨run, rfl⟩
  · rintro ⟨run, rfl⟩
    exact .negative run

private theorem spells_iff_of_unsigned
    {characters : List Char} {value : Int}
    (unsigned : ∀ digits, characters ≠ '-' :: digits) :
    Spells characters value ↔
      Run characters ∧ (Nat.ofDigitChars 10 characters 0 : Nat) = value := by
  constructor
  · intro spelled
    cases spelled with
    | natural run => exact ⟨run, rfl⟩
    | negative run => exact absurd rfl (unsigned _)
  · rintro ⟨run, rfl⟩
    exact .natural run

/-- The texts read as integers are the spellings of the 32-bit integers. -/
theorem integerOf?_eq_some_iff {text : String} {value : Int} :
    integerOf? text = some value ↔ Reads text value := by
  have bound : integerBound = 2147483648 := rfl
  unfold integerOf?
  split
  · rename_i digits signed
    simp only [Option.bind_eq_some_iff, digitsValue?_eq_some_iff,
      Option.ite_none_right_eq_some, Option.some_inj]
    constructor
    · rintro ⟨_, ⟨run, rfl⟩, fits, isValue⟩
      refine ⟨?_, by omega, by omega⟩
      rw [signed]
      exact spells_minus_iff.mpr ⟨run, isValue⟩
    · rintro ⟨spelled, lower, _⟩
      rw [signed] at spelled
      obtain ⟨run, isValue⟩ := spells_minus_iff.mp spelled
      exact ⟨_, ⟨run, rfl⟩, by omega, isValue⟩
  · rename_i unsigned
    simp only [Option.bind_eq_some_iff, digitsValue?_eq_some_iff,
      Option.ite_none_right_eq_some, Option.some_inj]
    constructor
    · rintro ⟨_, ⟨run, rfl⟩, fits, isValue⟩
      refine ⟨?_, by omega, by omega⟩
      exact (spells_iff_of_unsigned unsigned).mpr ⟨run, isValue⟩
    · rintro ⟨spelled, _, upper⟩
      obtain ⟨run, isValue⟩ := (spells_iff_of_unsigned unsigned).mp spelled
      exact ⟨_, ⟨run, rfl⟩, by omega, isValue⟩

/-! ## Kinds of keys -/

/-- A key for which only its text counts: no integer, and neither of the two names that enclose
all others. -/
structure Plain (key : Key) : Prop where
  notLeast : key ≠ least
  notGreatest : key ≠ greatest
  unread : ∀ value, ¬ Reads key.text value

private theorem kinds (key : Key) :
    key = least ∨ key = greatest ∨ (∃ value, Reads key.text value) ∨
      key.Plain := by
  by_cases isLeast : key = least
  · exact .inl isLeast
  by_cases isGreatest : key = greatest
  · exact .inr (.inl isGreatest)
  by_cases reads : ∃ value, Reads key.text value
  · exact .inr (.inr (.inl reads))
  · exact .inr (.inr (.inr
      ⟨isLeast, isGreatest, not_exists.mp reads⟩))

/-- No integer is spelled like one of the two names that enclose all others. -/
theorem Reads.ne_bounds
    {key : Key} {value : Int} (reads : Reads key.text value) :
    key ≠ least ∧ key ≠ greatest := by
  rw [← integerOf?_eq_some_iff] at reads
  constructor
  · rintro rfl
    cases reads
  · rintro rfl
    cases reads

private theorem Reads.band
    {key : Key} {value : Int} (reads : Reads key.text value) :
    key.band = 1 := by
  obtain ⟨notLeast, notGreatest⟩ := reads.ne_bounds
  rw [Key.band, if_neg notLeast, if_neg notGreatest,
    integerOf?_eq_some_iff.mpr reads]
  rfl

private theorem Reads.number
    {key : Key} {value : Int} (reads : Reads key.text value) :
    key.number = value := by
  rw [Key.number, integerOf?_eq_some_iff.mpr reads, Option.getD_some]

private theorem Reads.width
    {key : Key} {value : Int} (reads : Reads key.text value) :
    key.width = key.text.utf8ByteSize := by
  rw [Key.width, integerOf?_eq_some_iff.mpr reads]
  rfl

private theorem Plain.integerOf?_eq_none {key : Key} (plain : key.Plain) :
    integerOf? key.text = none :=
  Option.eq_none_iff_forall_ne_some.mpr fun value read =>
    plain.unread value (integerOf?_eq_some_iff.mp read)

private theorem Plain.band {key : Key} (plain : key.Plain) : key.band = 2 := by
  rw [Key.band, if_neg plain.notLeast, if_neg plain.notGreatest,
    plain.integerOf?_eq_none]
  rfl

@[simp]
private theorem band_least : least.band = 0 :=
  if_pos rfl

@[simp]
private theorem band_greatest : greatest.band = 3 := by
  rw [band, if_neg (by decide), if_pos rfl]

private theorem band_lt_of_ne_greatest
    {key : Key} (different : key ≠ greatest) : key.band < 3 := by
  rcases kinds key with rfl | isGreatest | ⟨value, reads⟩ | plain
  · rw [band_least]
    decide
  · exact absurd isGreatest different
  · rw [reads.band]
    decide
  · rw [plain.band]
    decide

private theorem band_pos_of_ne_least
    {key : Key} (different : key ≠ least) : 0 < key.band := by
  rcases kinds key with isLeast | rfl | ⟨value, reads⟩ | plain
  · exact absurd isLeast different
  · rw [band_greatest]
    decide
  · rw [reads.band]
    decide
  · rw [plain.band]
    decide

/-! ## Which of two keys comes first -/

private theorem compare_of_band_lt
    {left right : Key} (lower : left.band < right.band) :
    compare left right = .lt := by
  change (compare left.band right.band).then _ = .lt
  rw [Nat.compare_eq_lt.mpr lower]
  rfl

private theorem compare_of_reads
    {left right : Key} {value other : Int}
    (reads : Reads left.text value) (readsOther : Reads right.text other) :
    compare left right =
      (compare value other).then
        ((compare left.text.utf8ByteSize right.text.utf8ByteSize).then
          (compare left.text right.text)) := by
  change (compare left.band right.band).then
    ((compare left.number right.number).then
      ((compare left.width right.width).then _)) = _
  rw [reads.band, readsOther.band, reads.number, readsOther.number,
    reads.width, readsOther.width]
  rfl

private theorem compare_of_plain
    {left right : Key} (plain : left.Plain) (otherPlain : right.Plain) :
    compare left right = compare left.text right.text := by
  change (compare left.band right.band).then
    ((compare left.number right.number).then
      ((compare left.width right.width).then _)) = _
  rw [plain.band, otherPlain.band, number, number, width, width,
    plain.integerOf?_eq_none, otherPlain.integerOf?_eq_none]
  rfl

/-- The rules by which one key comes before another one. -/
inductive Precedes : Key → Key → Prop
  | least {key : Key} (different : key ≠ least) : Precedes least key
  | greatest {key : Key} (different : key ≠ greatest) :
      Precedes key greatest
  | value {left right : Key} {value other : Int}
      (reads : Reads left.text value) (readsOther : Reads right.text other)
      (smaller : value < other) : Precedes left right
  | width {left right : Key} {value : Int}
      (reads : Reads left.text value) (readsToo : Reads right.text value)
      (shorter : left.text.utf8ByteSize < right.text.utf8ByteSize) :
      Precedes left right
  | spelling {left right : Key} {value : Int}
      (reads : Reads left.text value) (readsToo : Reads right.text value)
      (sameWidth : left.text.utf8ByteSize = right.text.utf8ByteSize)
      (smaller : left.text < right.text) : Precedes left right
  | integer {left right : Key} {value : Int}
      (reads : Reads left.text value) (plain : right.Plain) :
      Precedes left right
  | text {left right : Key} (plain : left.Plain) (otherPlain : right.Plain)
      (smaller : left.text < right.text) : Precedes left right

private theorem Precedes.compare_eq
    {left right : Key} (precedes : left.Precedes right) :
    compare left right = .lt := by
  cases precedes with
  | least different =>
      refine compare_of_band_lt ?_
      rw [band_least]
      exact band_pos_of_ne_least different
  | greatest different =>
      refine compare_of_band_lt ?_
      rw [band_greatest]
      exact band_lt_of_ne_greatest different
  | value reads readsOther smaller =>
      rw [compare_of_reads reads readsOther,
        Int.compare_eq_lt.mpr smaller]
      rfl
  | width reads readsToo shorter =>
      rw [compare_of_reads reads readsToo, ReflOrd.compare_self,
        Nat.compare_eq_lt.mpr shorter]
      rfl
  | spelling reads readsToo sameWidth smaller =>
      rw [compare_of_reads reads readsToo, ReflOrd.compare_self, sameWidth,
        ReflOrd.compare_self, compare_lt_iff_lt.mpr smaller]
      rfl
  | integer reads plain =>
      refine compare_of_band_lt ?_
      rw [reads.band, plain.band]
      decide
  | text plain otherPlain smaller =>
      rw [compare_of_plain plain otherPlain, compare_lt_iff_lt.mpr smaller]

/-- Two spellings of one integer are ranked by their lengths and then as texts. -/
theorem precedes_or_precedes_of_reads
    {left right : Key} {value : Int}
    (reads : Reads left.text value) (readsToo : Reads right.text value)
    (different : left.text ≠ right.text) :
    left.Precedes right ∨ right.Precedes left := by
  rcases Nat.lt_trichotomy left.text.utf8ByteSize right.text.utf8ByteSize
    with shorter | sameWidth | longer
  · exact .inl (.width reads readsToo shorter)
  · rcases lt_or_gt_of_ne different with smaller | greater
    · exact .inl (.spelling reads readsToo sameWidth smaller)
    · exact .inr (.spelling readsToo reads sameWidth.symm greater)
  · exact .inr (.width readsToo reads longer)

/-- Of two different keys, one comes before the other by one of the rules. -/
theorem precedes_or_precedes
    {left right : Key} (different : left ≠ right) :
    left.Precedes right ∨ right.Precedes left := by
  have differentTexts := text_injective.ne different
  rcases kinds left with rfl | rfl | ⟨value, reads⟩ | plain
  · exact .inl (.least different.symm)
  · exact .inr (.greatest different.symm)
  · rcases kinds right with rfl | rfl | ⟨other, readsOther⟩ | otherPlain
    · exact .inr (.least different)
    · exact .inl (.greatest different)
    · rcases Int.lt_trichotomy value other with smaller | rfl | greater
      · exact .inl (.value reads readsOther smaller)
      · exact precedes_or_precedes_of_reads reads readsOther differentTexts
      · exact .inr (.value readsOther reads greater)
    · exact .inl (.integer reads otherPlain)
  · rcases kinds right with rfl | rfl | ⟨other, readsOther⟩ | otherPlain
    · exact .inr (.least different)
    · exact .inl (.greatest different)
    · exact .inr (.integer readsOther plain)
    · exact (lt_or_gt_of_ne differentTexts).imp (.text plain otherPlain)
        (.text otherPlain plain)

/-- A key is below another one exactly if one of the rules puts it there. -/
theorem compare_eq_lt_iff {left right : Key} :
    compare left right = .lt ↔ left.Precedes right := by
  constructor
  · intro below
    have different : left ≠ right := by
      rintro rfl
      rw [ReflOrd.compare_self] at below
      cases below
    rcases precedes_or_precedes different with precedes | succeeds
    · exact precedes
    · rw [OrientedCmp.gt_of_lt succeeds.compare_eq] at below
      cases below
  · exact Precedes.compare_eq

/-- What it takes for a comparison of keys to be a strict total order that follows the rules. -/
structure Ranks (order : Key → Key → Ordering) : Prop where
  /-- Only keys with the same text tie. -/
  tied : ∀ left right : Key,
    order left right = .eq ↔ left.text = right.text
  /-- Two keys compare the other way round from the other side. -/
  antisymmetric : ∀ left right : Key,
    order right left = (order left right).swap
  /-- Keys in order stay so when one between them is left out. -/
  transitive : ∀ left middle right : Key,
    order left middle = .lt → order middle right = .lt →
      order left right = .lt
  /-- The rules say which of two keys comes first. -/
  ruled : ∀ left right : Key,
    order left right = .lt ↔ left.Precedes right

/-- The order of keys is a strict total order of all texts that follows the rules, and the texts
that it takes for integers are the spellings of 32-bit integers. -/
theorem ranks_compare :
    Ranks compare ∧
      ∀ (text : String) (value : Int),
        integerOf? text = some value ↔ Reads text value := by
  refine ⟨⟨fun left right => ?_, fun _ _ => OrientedCmp.eq_swap,
    fun _ _ _ first second => TransCmp.lt_trans first second,
    fun _ _ => compare_eq_lt_iff⟩, fun _ _ => integerOf?_eq_some_iff⟩
  rw [Std.LawfulEqOrd.compare_eq_iff_eq]
  exact text_injective.eq_iff.symm

theorem ranks_compare_across_kinds :
    let negated : Key := ⟨"-0"⟩
    let padded : Key := ⟨"00"⟩
    let large : Key := ⟨"2147483648"⟩
    Reads negated.text 0 ∧ Reads padded.text 0 ∧ large.Plain ∧
      negated.Precedes padded ∧ padded.Precedes large ∧
        compare negated large = .lt := by
  intro negated padded large
  obtain ⟨ranks, reads⟩ := ranks_compare
  have sameValue : compare negated padded = .lt := by decide
  have otherKind : compare padded large = .lt := by decide
  have unread : integerOf? large.text = none := by decide
  refine ⟨(reads _ _).mp (by decide), (reads _ _).mp (by decide),
    ⟨by decide, by decide, fun value reading => ?_⟩,
    (ranks.ruled _ _).mp sameValue, (ranks.ruled _ _).mp otherKind,
    ranks.transitive _ _ _ sameValue otherKind⟩
  rw [← reads, unread] at reading
  cases reading

end Replica.Key
