import GrammarCompiler.Proofs.SourceSlices
import GrammarCompiler.Proofs.WrittenNames
import Mathlib.Data.List.DropRight

/-!
# The canonical spelling of a written name

A name is classified by its text without the blanks at both ends.  The qualifiers
are cut off at character boundaries.  The target of a call is a canonical spelling:
it is classified as the name for which it was written.
-/

namespace GrammarCompiler

/-! ## Trimmed texts -/

namespace Text

/-- Some characters neither start nor end with a blank. -/
def IsTrimmed (chars : List Char) : Prop :=
  ∀ nonempty : chars ≠ [],
    isBlank (chars.head nonempty) = false ∧ isBlank (chars.getLast nonempty) = false

theorem trimChars_eq_rdropWhile (chars : List Char) :
    trimChars chars = (chars.dropWhile isBlank).rdropWhile isBlank := rfl

theorem IsTrimmed.trimChars_eq
    {chars : List Char}
    (trimmed : IsTrimmed chars) :
    trimChars chars = chars := by
  have fromStart : chars.dropWhile isBlank = chars := by
    refine List.dropWhile_eq_self_iff.mpr fun positive => ?_
    have nonempty : chars ≠ [] := List.ne_nil_of_length_pos positive
    rw [← List.head_eq_getElem nonempty, (trimmed nonempty).1]
    exact Bool.false_ne_true
  rw [trimChars_eq_rdropWhile, fromStart, List.rdropWhile_eq_self_iff]
  intro nonempty
  rw [(trimmed nonempty).2]
  exact Bool.false_ne_true

theorem isTrimmed_trimChars (chars : List Char) : IsTrimmed (trimChars chars) := by
  intro nonempty
  rw [trimChars_eq_rdropWhile] at nonempty
  have isStart := List.rdropWhile_prefix isBlank (chars.dropWhile isBlank)
  refine ⟨?_, Bool.eq_false_iff.mpr (List.rdropWhile_last_not _ _ nonempty)⟩
  exact (congrArg isBlank (isStart.head nonempty)).trans (List.head_dropWhile_not isBlank _)

/-- A text is another one without the blanks at both of its ends. -/
structure IsTrimOf (text trimmed : String) : Prop where
  surrounded : ∃ leading trailing : String,
    text = leading ++ trimmed ++ trailing ∧ isAllBlank leading = true ∧ isAllBlank trailing = true
  isTrimmed : IsTrimmed trimmed.toList

theorem isTrimOf_trim (text : String) : IsTrimOf text (trim text) where
  surrounded := by
    refine ⟨String.ofList (text.toList.takeWhile isBlank),
      String.ofList ((text.toList.dropWhile isBlank).rtakeWhile isBlank), ?_, ?_, ?_⟩
    · rw [← String.toList_inj, String.toList_append, String.toList_append, toList_trim,
        String.toList_ofList, String.toList_ofList, trimChars_eq_rdropWhile, List.append_assoc,
        List.rdropWhile_append_rtakeWhile, List.takeWhile_append_dropWhile]
    · rw [isAllBlank, String.toList_ofList, List.all_takeWhile]
    · rw [isAllBlank, String.toList_ofList, List.all_eq_true]
      exact fun c => List.mem_rtakeWhile_imp
  isTrimmed := by
    rw [toList_trim]
    exact isTrimmed_trimChars text.toList

theorem trim_eq_self
    {text : String}
    (trimmed : IsTrimmed text.toList) :
    trim text = text := by
  rw [trim, trimmed.trimChars_eq, String.ofList_toList]

theorem trim_trim (text : String) : trim (trim text) = trim text :=
  trim_eq_self (isTrimOf_trim text).isTrimmed

/-! ## Letters of either case -/

/-- A letter and its lower case are both of one byte. -/
theorem utf8Size_toLower (c : Char) : c.toLower.utf8Size = c.utf8Size := by
  unfold Char.toLower
  split
  · next isUpper =>
      have least := UInt32.le_iff_toNat_le.mp isUpper.1
      have most := UInt32.le_iff_toNat_le.mp isUpper.2
      have narrow : c.utf8Size = 1 := by
        rw [Char.utf8Size_eq_one_iff]
        exact UInt32.le_iff_toNat_le.mpr (by simp at most ⊢; omega)
      rw [narrow, Char.utf8Size_eq_one_iff]
      apply UInt32.le_iff_toNat_le.mpr
      simp at least most ⊢
      omega
  · rfl

theorem byteLength_map_toLower (chars : List Char) :
    byteLength (chars.map Char.toLower) = byteLength chars := by
  induction chars with
  | nil => rfl
  | cons c chars inductionHypothesis =>
      rw [List.map_cons, byteLength_cons, byteLength_cons, utf8Size_toLower, inductionHypothesis]

end Text

namespace WrittenName

/-! ## Cutting qualifiers off -/

/-- The characters ahead of what follows a qualifier take up as many bytes as the
qualifier. -/
theorem exists_spelled_of_afterQualifier?
    {chars qualifier rest : List Char}
    (found : afterQualifier? chars qualifier = some rest) :
    ∃ spelled : String, String.ofList chars = spelled ++ String.ofList rest ∧
      spelled.toList.map Char.toLower = qualifier ∧
      spelled.utf8ByteSize = Text.byteLength qualifier := by
  unfold afterQualifier? at found
  split at found
  · next spells =>
      cases found
      refine ⟨String.ofList (chars.take qualifier.length), ?_, ?_, ?_⟩
      · rw [← String.ofList_append, List.take_append_drop]
      · rw [String.toList_ofList, spells]
      · rw [← Text.byteLength_eq_utf8ByteSize, ← Text.byteLength_map_toLower, spells]
  · exact absurd found nofun

/-- What follows a qualifier is the slice after as many bytes as the qualifier
has. -/
theorem slice?_of_afterQualifier?
    {chars qualifier rest : List Char}
    (found : afterQualifier? chars qualifier = some rest) :
    Text.slice? (String.ofList chars)
      { start := Text.byteLength qualifier, next := Text.byteLength chars } =
        some (String.ofList rest) := by
  obtain ⟨spelled, split, _, bytes⟩ := exists_spelled_of_afterQualifier? found
  have behind := Text.slice?_eq_some_of_append spelled (String.ofList rest) ""
  rwa [String.append_empty, ← split, bytes, ← Text.byteLength_eq_utf8ByteSize] at behind

/-- The first bytes of a text spell a qualifier. -/
def SpellsInBytes (text qualifier : String) : Prop :=
  ∃ spelled, Text.slice? (Text.trim text) { start := 0, next := qualifier.utf8ByteSize } =
      some spelled ∧
    spelled.toList.map Char.toLower = qualifier.toList

/-- Both parts of a text that starts with a qualifier are slices of it. -/
theorem StartsWith.exists_slices
    {text qualifier : String}
    (starts : StartsWith text qualifier) :
    SpellsInBytes text qualifier ∧
      Text.slice? (Text.trim text)
        { start := qualifier.utf8ByteSize, next := (Text.trim text).utf8ByteSize } =
        some (String.ofList ((Text.trim text).toList.drop qualifier.length)) := by
  have found := afterQualifier?_eq_some_iff.mpr ⟨starts, rfl⟩
  obtain ⟨spelled, split, spells, bytes⟩ := exists_spelled_of_afterQualifier? found
  have ahead := Text.slice?_eq_some_of_append "" spelled
    (String.ofList ((Text.trim text).toList.drop qualifier.length))
  have behind := slice?_of_afterQualifier? found
  rw [Text.byteLength_toList] at bytes
  rw [String.ofList_toList] at split
  rw [String.ofList_toList, Text.byteLength_toList, Text.byteLength_toList] at behind
  rw [String.empty_append, ← split, bytes] at ahead
  exact ⟨⟨spelled, ahead, spells⟩, behind⟩

/-- Whether a text starts with a qualifier can be seen from its first bytes. -/
theorem startsWith_iff_spellsInBytes
    {text qualifier : String} :
    StartsWith text qualifier ↔ SpellsInBytes text qualifier := by
  refine ⟨fun starts => starts.exists_slices.1, ?_⟩
  rintro ⟨spelled, sliced, spells⟩
  obtain ⟨before, after, split, bytes, -⟩ := Text.exists_append_of_slice?_eq_some sliced
  rw [String.utf8ByteSize_eq_zero_iff.mp bytes, String.empty_append] at split
  rw [StartsWith, ← spells, split, String.toList_append, List.map_append]
  exact List.prefix_append _ _

/-! ## The classification in full -/

/-- How a text is classified, by its trimmed form. -/
structure IsClassified (text trimmed : String) (written : WrittenName) : Prop where
  bare (name : String) : written = .bare name ↔ '.' ∉ trimmed.toList ∧ name = trimmed
  /-- The ancestor's rule is named by what follows the bytes of a qualifier. -/
  ancestor (name : String) : written = .qualified name true ↔
    ∃ qualifier, IsAncestorQualifier qualifier ∧ StartsWith text qualifier ∧
      Text.slice? trimmed { start := qualifier.utf8ByteSize, next := trimmed.utf8ByteSize } =
        some name
  plain (name : String) : written = .qualified name false ↔
    '.' ∈ trimmed.toList ∧ ¬AsksAncestor text ∧ name = trimmed

theorem isClassified_ofText (text : String) : IsClassified text (Text.trim text) (ofText text) where
  bare name := by
    by_cases qualified : IsQualified text
    · obtain ⟨_, _, classified, _⟩ := ofText_of_isQualified qualified
      rw [classified]
      exact ⟨nofun, fun bare => absurd qualified bare.1⟩
    · rw [ofText_of_not_isQualified qualified, WrittenName.bare.injEq, eq_comm]
      exact ⟨fun same => ⟨qualified, same⟩, fun bare => bare.2⟩
  ancestor name := by
    rw [ofText_eq_qualified_iff]
    constructor
    · rintro ⟨-, calls⟩
      cases calls with
      | ancestor isAncestor starts => exact ⟨_, isAncestor, starts, starts.exists_slices.2⟩
    · rintro ⟨qualifier, isAncestor, starts, sliced⟩
      cases Option.some.inj (starts.exists_slices.2.symm.trans sliced)
      exact ⟨AsksAncestor.isQualified ⟨qualifier, isAncestor, starts⟩, .ancestor isAncestor starts⟩
  plain name := by
    rw [ofText_eq_qualified_iff]
    constructor
    · rintro ⟨qualified, calls⟩
      cases calls with
      | plain notAsked => exact ⟨qualified, notAsked, rfl⟩
    · rintro ⟨qualified, notAsked, rfl⟩
      exact ⟨qualified, .plain notAsked⟩

/-- A qualifier is looked for in the first bytes of a text.  Where it is found, the
bytes after it are a slice of their own. -/
structure IsCutInBytes (text trimmed qualifier : String) : Prop where
  found : StartsWith text qualifier ↔ SpellsInBytes text qualifier
  rest : SpellsInBytes text qualifier →
    Text.IsSlice trimmed { start := qualifier.utf8ByteSize, next := trimmed.utf8ByteSize }

theorem isCutInBytes (text qualifier : String) : IsCutInBytes text (Text.trim text) qualifier where
  found := startsWith_iff_spellsInBytes
  rest spells := Text.exists_slice?_iff.mp
    ⟨_, (startsWith_iff_spellsInBytes.mpr spells).exists_slices.2⟩

/-! ## The canonical spelling -/

theorem ofText_trim (text : String) : ofText (Text.trim text) = ofText text := by
  have same := congrArg String.toList (Text.trim_trim text)
  rw [Text.toList_trim, Text.toList_trim] at same
  rw [ofText, Text.toList_trim, same]
  rfl

/-- What follows a qualifier ends as the whole text does. -/
theorem isTrimmed_append_drop
    {chars : List Char}
    (trimmed : Text.IsTrimmed chars)
    (count : Nat) :
    Text.IsTrimmed ("base.".toList ++ chars.drop count) := by
  intro nonempty
  refine ⟨rfl, ?_⟩
  by_cases nothing : chars.drop count = []
  · simp only [nothing]
    rfl
  · rw [List.getLast_append_right nothing, List.getLast_drop]
    exact (trimmed _).2

/-- The name of an ancestor's rule is found again after the qualifier that is
written for it. -/
theorem ofText_callTarget_of_bypass
    {rest : String}
    (trimmed : Text.IsTrimmed ("base." ++ rest).toList) :
    ofText (callTarget rest true) = .qualified rest true := by
  have inLowerCase : "base.".toList.map Char.toLower = "base.".toList := by decide
  have starts : StartsWith ("base." ++ rest) "base." := by
    rw [StartsWith, Text.trim_eq_self trimmed, String.toList_append, List.map_append, inLowerCase]
    exact List.prefix_append _ _
  have calls := CallsRule.ancestor (.inl rfl) starts
  rw [Text.trim_eq_self trimmed, String.toList_append, ← String.length_toList, List.drop_left,
    String.ofList_toList] at calls
  rw [callTarget, if_pos rfl, ofText_eq_qualified_iff]
  exact ⟨AsksAncestor.isQualified ⟨_, .inl rfl, starts⟩, calls⟩

/-- Texts are classified exactly, and the target of a call spells the name for
which it is written. -/
theorem classification_is_exact_and_canonical (text : String) :
    Text.IsTrimOf text (Text.trim text) ∧
      IsClassified text (Text.trim text) (ofText text) ∧
      (∀ qualifier, IsCutInBytes text (Text.trim text) qualifier) ∧
      ofText (callTarget (ofText text).name (ofText text).bypass) = ofText text := by
  refine ⟨Text.isTrimOf_trim text, isClassified_ofText text, isCutInBytes text, ?_⟩
  have classified := isClassified_ofText text
  cases written : ofText text with
  | bare name =>
      obtain ⟨_, rfl⟩ := (classified.bare name).mp written
      exact (ofText_trim text).trans written
  | qualified name bypass =>
      cases bypass with
      | false =>
          obtain ⟨_, _, rfl⟩ := (classified.plain name).mp written
          exact (ofText_trim text).trans written
      | true =>
          obtain ⟨qualifier, _, starts, sliced⟩ := (classified.ancestor name).mp written
          have isRest := Option.some.inj (starts.exists_slices.2.symm.trans sliced)
          have chars : name.toList = (Text.trim text).toList.drop qualifier.length := by
            rw [← isRest, String.toList_ofList]
          have trimmed : Text.IsTrimmed ("base." ++ name).toList := by
            rw [String.toList_append, chars]
            exact isTrimmed_append_drop (Text.isTrimOf_trim text).isTrimmed _
          exact ofText_callTarget_of_bypass trimmed

example :
    (ofText " SUPER.base.é\n", ofText "base.", ofText "basé.x") =
      (.qualified "base.é" true, .qualified "" true, .qualified "basé.x" false) := by
  decide

end WrittenName
end GrammarCompiler
