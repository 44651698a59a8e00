import Mathlib.Data.List.Basic
import Replica.Path
import Replica.Proofs.Key

/-!
# Paths and their texts

A text is cut at its slashes, and empty pieces count for nothing. It names a path exactly if every
piece is fit for data; the last one may be the priority key instead. Such keys hold no slash and are
not empty, so a path is read again from its own text.
-/

namespace Replica.Path

private theorem toList_text
    {path : Path} (proper : path ≠ []) :
    (text path).toList = path.flatMap fun key => '/' :: key.text.toList := by
  have joined : (String.join (path.map fun key => "/" ++ key.text)).toList =
      path.flatMap fun key => '/' :: key.text.toList := by
    rw [String.toList_join, List.flatMap_map]
    refine List.flatMap_congr fun key _ => ?_
    rw [String.toList_append]
    rfl
  cases path with
  | nil => exact absurd rfl proper
  | cons key rest => exact joined

@[simp]
theorem head?_text (path : Path) : (text path).toList.head? = some '/' := by
  cases path with
  | nil => rfl
  | cons key rest =>
      rw [toList_text (List.cons_ne_nil key rest)]
      rfl

/-! ## Keys that a path may have -/

/-- Every key is fit for data, but the last one may be the priority key instead. -/
def Named (path : Path) : Prop :=
  ∀ before key after, path = before ++ key :: after →
    key.isValid = true ∨ key = .priority ∧ after = []

private theorem named_nil : Named [] := by
  intro before key after split
  exact absurd split.symm (List.append_ne_nil_of_right_ne_nil before
    (List.cons_ne_nil key after))

private theorem named_cons_iff {key : Key} {rest : Path} :
    Named (key :: rest) ↔
      (key.isValid = true ∨ key = .priority ∧ rest = []) ∧ Named rest := by
  constructor
  · intro named
    refine ⟨named [] key rest rfl, fun before other after split => ?_⟩
    exact named (key :: before) other after (congrArg (key :: ·) split)
  · rintro ⟨first, others⟩ before other after split
    cases before with
    | nil =>
        cases split
        exact first
    | cons earlier before =>
        cases split
        exact others before other after rfl

private theorem named_of_isValid
    {path : Path} (valid : ∀ key ∈ path, key.isValid = true) :
    path.Named := by
  rintro before key after rfl
  exact .inl (valid key
    (List.mem_append_right before List.mem_cons_self))

private theorem Named.valid_or_priority
    {path : Path} (named : path.Named) {key : Key} (member : key ∈ path) :
    key.isValid = true ∨ key = .priority := by
  obtain ⟨before, after, split⟩ := List.append_of_mem member
  exact (named before key after split).imp_right And.left

private theorem Named.slashless
    {path : Path} (named : path.Named) {key : Key} (member : key ∈ path) :
    '/' ∉ key.text.toList := by
  intro slash
  rcases named.valid_or_priority member with valid | rfl
  · have fit := Key.unforbidden_of_isValid valid '/' slash
    cases fit
  · exact absurd slash (by decide)

private theorem Named.text_nonempty
    {path : Path} (named : path.Named) {key : Key} (member : key ∈ path) :
    key.text.toList ≠ [] := by
  rcases named.valid_or_priority member with valid | rfl
  · exact Key.text_nonempty_of_isValid valid
  · decide

/-! ## Cutting a text -/

private theorem pieces_eq_splitOn (source : List Char) :
    pieces source = source.splitOn '/' := by
  induction source with
  | nil => rfl
  | cons c rest inductionHypothesis =>
      rw [pieces, List.splitOn_cons_eq_if_modifyHead, inductionHypothesis]
      by_cases slash : c = '/'
      · rw [if_pos slash, if_pos (by simpa using slash)]
      · rw [if_neg slash, if_neg (by simpa using slash)]
        cases cut : rest.splitOn '/' with
        | nil => exact absurd cut (List.splitOn_ne_nil '/' rest)
        | cons piece others => rfl

/-- The nonempty pieces between the slashes of a text, as keys that may be unfit. -/
def written (source : String) : Path :=
  ((source.toList.splitOn '/').filter (!·.isEmpty)).map
    fun piece => ⟨String.ofList piece⟩

private theorem toList_text_eq_intercalate
    {path : Path} (proper : path ≠ []) :
    (text path).toList =
      ['/'].intercalate ([] :: path.map (·.text.toList)) := by
  have joined (first : List Char) (path : Path) :
      ['/'].intercalate (first :: path.map (·.text.toList)) =
        first ++ path.flatMap fun key => '/' :: key.text.toList := by
    induction path generalizing first with
    | nil => simp
    | cons key rest inductionHypothesis =>
        rw [List.map_cons, List.intercalate_cons_cons,
          inductionHypothesis, List.flatMap_cons]
        simp
  rw [toList_text proper, joined, List.nil_append]

/-- The text of a path is cut into its keys. -/
theorem written_text {path : Path} (named : path.Named) :
    written (text path) = path := by
  by_cases root : path = []
  · subst root
    rfl
  have slashless : ∀ piece ∈ [] :: path.map (·.text.toList), '/' ∉ piece := by
    rintro piece member
    rcases List.mem_cons.mp member with rfl | later
    · exact List.not_mem_nil
    · obtain ⟨key, keyMember, rfl⟩ := List.mem_map.mp later
      exact named.slashless keyMember
  have kept : (path.map (·.text.toList)).filter (!·.isEmpty) =
      path.map (·.text.toList) := by
    rw [List.filter_eq_self]
    intro piece member
    obtain ⟨key, keyMember, rfl⟩ := List.mem_map.mp member
    simpa using named.text_nonempty keyMember
  rw [written, toList_text_eq_intercalate root,
    List.splitOn_intercalate '/' slashless (List.cons_ne_nil _ _),
    List.filter_cons_of_neg (by simp), kept, List.map_map]
  refine (List.map_congr_left fun key _ => ?_).trans (List.map_id path)
  exact Key.text_injective String.ofList_toList

/-! ## Reading a text -/

/-- A piece is read if it is fit for data, or if it is the priority key and comes last. -/
theorem ofPieces_cons_eq_ok_iff
    {source piece : String} {rest : List String} {path : Path} :
    ofPieces source (piece :: rest) = .ok path ↔
      (Key.isValid ⟨piece⟩ = true ∨
        (⟨piece⟩ : Key) = .priority ∧ rest = []) ∧
      ∃ keys, ofPieces source rest = .ok keys ∧ path = ⟨piece⟩ :: keys := by
  have goesOn : (do
      let keys ← ofPieces source rest
      return (⟨piece⟩ : Key) :: keys) = Except.ok path ↔
        ∃ keys, ofPieces source rest = .ok keys ∧
          path = ⟨piece⟩ :: keys := by
    cases ofPieces source rest with
    | error failure => simp [bind, Except.bind]
    | ok keys =>
        simp [bind, Except.bind, pure, Except.pure, eq_comm]
  rw [ofPieces]
  by_cases reserved : piece = Key.priority.text
  · subst reserved
    have unfit : Key.isValid ⟨Key.priority.text⟩ = false := by decide
    rw [if_pos rfl]
    cases rest with
    | nil => exact goesOn.trans (and_iff_right (.inr ⟨rfl, rfl⟩)).symm
    | cons next others =>
        simp [unfit, throw, throwThe, MonadExceptOf.throw, bind, Except.bind]
  · have other : (⟨piece⟩ : Key) ≠ .priority :=
      fun same => reserved (congrArg Key.text same)
    rw [if_neg reserved]
    cases fault : Key.fault? piece with
    | none =>
        have valid : Key.isValid ⟨piece⟩ = true := by
          rw [Key.isValid, fault]
          rfl
        exact goesOn.trans (and_iff_right (.inl valid)).symm
    | some cause =>
        have unfit : Key.isValid ⟨piece⟩ = false := by
          rw [Key.isValid, fault]
          rfl
        simp [unfit, other, throw, throwThe, MonadExceptOf.throw, bind, Except.bind]

private theorem ofPieces_eq_ok_iff
    {source : String} {texts : List String} {path : Path} :
    ofPieces source texts = .ok path ↔
      path = texts.map Key.mk ∧ path.Named := by
  induction texts generalizing path with
  | nil =>
      rw [ofPieces, List.map_nil, Except.ok.injEq, eq_comm]
      exact ⟨fun isRoot => ⟨isRoot, isRoot ▸ named_nil⟩, And.left⟩
  | cons piece rest inductionHypothesis =>
      rw [ofPieces_cons_eq_ok_iff, List.map_cons]
      constructor
      · rintro ⟨first, keys, others, rfl⟩
        obtain ⟨rfl, named⟩ := inductionHypothesis.mp others
        refine ⟨rfl, named_cons_iff.mpr ⟨?_, named⟩⟩
        simpa using first
      · rintro ⟨rfl, named⟩
        obtain ⟨first, others⟩ := named_cons_iff.mp named
        refine ⟨?_, _, inductionHypothesis.mpr ⟨rfl, others⟩, rfl⟩
        simpa using first

/-- A text is read as the keys between its slashes, if they may be the keys of a path. -/
theorem parse_eq_ok_iff {source : String} {path : Path} :
    parse source = .ok path ↔ path = written source ∧ path.Named := by
  rw [parse, ofPieces_eq_ok_iff, pieces_eq_splitOn, List.map_map]
  rfl

/-- A path is read from its text. -/
theorem parse_text {path : Path} (named : path.Named) :
    parse (text path) = .ok path :=
  parse_eq_ok_iff.mpr ⟨(written_text named).symm, named⟩

theorem text_injective
    {left right : Path} (leftValid : ∀ key ∈ left, key.isValid = true)
    (rightValid : ∀ key ∈ right, key.isValid = true)
    (same : text left = text right) : left = right := by
  have read := parse_text (named_of_isValid leftValid)
  rw [same, parse_text (named_of_isValid rightValid)] at read
  cases read
  rfl

/-- Paths and texts go together: a path is read from its text, what a text is read as is read
again from the text of that path, and a text is read exactly if all its pieces may be the keys of
a path. -/
theorem texts_read_back :
    (∀ path : Path, path.Named → parse (text path) = .ok path) ∧
      (∀ source path, parse source = .ok path →
        parse (text path) = .ok path) ∧
      ∀ source : String,
        ((∃ path, parse source = .ok path) ↔ (written source).Named) ∧
          ∀ path, parse source = .ok path → path = written source := by
  refine ⟨fun path named => parse_text named, fun source path read => ?_,
    fun source => ⟨?_, fun path read => (parse_eq_ok_iff.mp read).1⟩⟩
  · exact parse_text (parse_eq_ok_iff.mp read).2
  · constructor
    · rintro ⟨path, read⟩
      obtain ⟨rfl, named⟩ := parse_eq_ok_iff.mp read
      exact named
    · exact fun named => ⟨_, parse_eq_ok_iff.mpr ⟨rfl, named⟩⟩

/-- Slashes at the ends and in a row do not count, and the priority key stands last. -/
theorem texts_read_back_priority_last :
    parse "//a///b/.priority/" = .ok [⟨"a"⟩, ⟨"b"⟩, .priority] ∧
      parse "/a/b/.priority" = .ok [⟨"a"⟩, ⟨"b"⟩, .priority] ∧
      ¬ ∃ path, parse "/a/.priority/b" = .ok path := by
  obtain ⟨reads, rereads, accepts⟩ := texts_read_back
  have read : parse "//a///b/.priority/" =
      .ok [⟨"a"⟩, ⟨"b"⟩, .priority] := by
    rfl
  refine ⟨read, rereads _ _ read, fun accepted => ?_⟩
  have named := (accepts "/a/.priority/b").1.mp accepted
  rcases named [⟨"a"⟩] .priority [⟨"b"⟩] rfl with valid | ⟨_, last⟩
  · exact absurd valid (by decide)
  · cases last

end Replica.Path
