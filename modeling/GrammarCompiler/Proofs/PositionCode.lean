import GrammarCompiler.Proofs.SourceLines
import Mathlib.Data.Prod.Lex

/-!
# Positions stand for offsets

The line and the column of a character boundary tell its offset, and a later
boundary has a later position.  Offsets that are no boundaries are located too:
past the end as the end is, and inside a character by the bytes from the start of
the line.
-/

namespace GrammarCompiler
namespace Text

/-- The offset of a line and a column: the bytes of the characters ahead of the
column are counted from the start of the line. -/
def offsetAt? (source : String) (position : Nat × Nat) : Option Nat := do
  let start ← (lineStarts source)[position.1 - 1]?
  let first ← charIndex? source.toList start
  return start + byteLength ((source.toList.drop first).take (position.2 - 1))

theorem charIndex?_of_append
    {source before after : String}
    (split : source = before ++ after) :
    charIndex? source.toList before.utf8ByteSize = some before.toList.length :=
  charIndex?_eq_some_iff.mpr ⟨before, after, split, rfl, rfl⟩

section

variable {source : String} {offset line column : Nat}

/-- Where an offset stands, its line starts and the characters ahead of it on the
line follow. -/
theorem StandsAt.exists_append
    (stands : StandsAt source offset line column) :
    ∃ before onLine after, source = before ++ (onLine ++ after) ∧
      (before ++ onLine).utf8ByteSize = offset ∧
      (lineStarts source)[line - 1]? = some before.utf8ByteSize ∧
      column = onLine.toList.length + 1 := by
  obtain ⟨earlier, start, _, onLine, starts, _, sliced, isLine, isColumn⟩ := stands
  obtain ⟨before, after, split, bytesBefore, bytes⟩ := exists_append_of_slice?_eq_some sliced
  refine ⟨before, onLine, after, split.trans (String.append_assoc ..), bytes, ?_, isColumn⟩
  rw [isLine, starts, bytesBefore]
  simp

/-- The position of an offset tells the offset. -/
theorem StandsAt.offsetAt?_eq
    (stands : StandsAt source offset line column) :
    offsetAt? source (line, column) = some offset := by
  obtain ⟨before, onLine, after, split, bytes, isStart, isColumn⟩ := stands.exists_append
  have ahead : (source.toList.drop before.toList.length).take (column - 1) = onLine.toList := by
    rw [isColumn, split]
    simp [String.toList_append]
  rw [String.utf8ByteSize_append] at bytes
  simp [offsetAt?, isStart, charIndex?_of_append split, ahead, byteLength_toList, bytes]

/-- A later offset stands on no earlier line. -/
theorem StandsAt.line_le
    {later laterLine laterColumn : Nat}
    (stands : StandsAt source offset line column)
    (standsLater : StandsAt source later laterLine laterColumn)
    (inOrder : offset ≤ later) :
    line ≤ laterLine := by
  obtain ⟨before, onLine, after, _, bytes, isStart, _⟩ := stands.exists_append
  obtain ⟨earlier, start, beyond, _, starts, isLast, _, isLine, _⟩ := standsLater
  rw [String.utf8ByteSize_append] at bytes
  by_contra further
  rw [starts] at isStart
  have := isLast _ (mem_of_getElem?_append_cons (by omega) isStart)
  omega

/-- A later offset on the same line stands in a later column. -/
theorem StandsAt.column_lt
    {later laterColumn : Nat}
    (stands : StandsAt source offset line column)
    (standsLater : StandsAt source later line laterColumn)
    (inOrder : offset < later) :
    column < laterColumn := by
  obtain ⟨before, onLine, after, split, bytes, isStart, isColumn⟩ := stands.exists_append
  obtain ⟨before', onLine', after', split', bytes', isStart', isColumn'⟩ :=
    standsLater.exists_append
  have sameStart : before.toList.length = before'.toList.length := by
    have found := charIndex?_of_append split'
    rw [← Option.some.inj (isStart.symm.trans isStart'), charIndex?_of_append split] at found
    exact Option.some.inj found
  rw [← String.append_assoc] at split split'
  obtain ⟨between, grown⟩ :=
    exists_eq_append_of_utf8ByteSize_le (split.symm.trans split') (by omega)
  have something : between.toList.length ≠ 0 := by
    intro nothing
    rw [List.length_eq_zero_iff, String.toList_eq_nil_iff] at nothing
    rw [grown, nothing, String.append_empty] at bytes'
    omega
  have characters := congrArg (List.length ∘ String.toList) grown
  simp only [Function.comp_apply, String.toList_append, List.length_append] at characters
  omega

end

/-- How line and column code offsets. -/
structure IsPositionCode (source : String) : Prop where
  /-- A later character boundary has a later position. -/
  increases {left right : Nat} :
    String.Pos.Raw.IsValid source ⟨left⟩ → String.Pos.Raw.IsValid source ⟨right⟩ → left < right →
      toLex (locate source left) < toLex (locate source right)
  /-- The position of a character boundary tells its offset. -/
  inverse {offset : Nat} :
    String.Pos.Raw.IsValid source ⟨offset⟩ → offsetAt? source (locate source offset) = some offset
  /-- Past the end is the end. -/
  pastEnd {offset : Nat} :
    source.utf8ByteSize ≤ offset → locate source offset = locate source source.utf8ByteSize
  /-- Inside a character, bytes are counted from the start of the line. -/
  insideCharacter {offset : Nat} :
    offset ≤ source.utf8ByteSize → ¬String.Pos.Raw.IsValid source ⟨offset⟩ →
      ∃ start, (lineStarts source)[(locate source offset).1 - 1]? = some start ∧
        start ≤ offset ∧ (locate source offset).2 = 1 + (offset - start)

/-- Line and column are a code for the offsets into a source. -/
theorem locate_is_position_code (source : String) : IsPositionCode source where
  increases left right inOrder := by
    have stands := standsAt_locate left
    have standsLater := standsAt_locate right
    rw [Prod.Lex.toLex_lt_toLex]
    rcases Nat.lt_or_eq_of_le (stands.line_le standsLater inOrder.le) with onLaterLine | onSameLine
    · exact .inl onLaterLine
    · exact .inr ⟨onSameLine, stands.column_lt (onSameLine ▸ standsLater) inOrder⟩
  inverse boundary := (standsAt_locate boundary).offsetAt?_eq
  pastEnd beyond := by
    rw [locate, locate, byteLength_toList, Nat.min_eq_right beyond, Nat.min_self]
  insideCharacter {offset} inSource notBoundary := by
    obtain ⟨before, start, after, starts, notAfter, _, located⟩ := (isLocated source offset).found
    rw [Nat.min_eq_left inSource] at notAfter located
    have notSliced : slice? source { start, next := offset } = none := by
      rw [Option.eq_none_iff_forall_ne_some]
      exact fun text sliced => notBoundary (exists_slice?_iff.mp ⟨text, sliced⟩).endsAtBoundary
    refine ⟨start, ?_, notAfter, ?_⟩
    · rw [located, starts]
      simp
    · rw [located, columnFrom, notSliced]
      exact Nat.add_comm _ _

example :
    (locate "é\r\n\rxé" 8, offsetAt? "é\r\n\rxé" (3, 3), locate "é\r\n\rxé" 7) =
      ((3, 3), some 8, (3, 3)) := by
  decide

end Text
end GrammarCompiler
