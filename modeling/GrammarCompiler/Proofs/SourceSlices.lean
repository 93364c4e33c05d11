import GrammarCompiler.Text.Line
import Mathlib.Data.List.Basic

/-!
# Slices and line look-ups

The text of a span is defined exactly if both ends of the span are character
boundaries of the source, in order.  The table of line starts increases and
begins with zero, so the look-up of any offset finds the line that it lies on.
-/

namespace GrammarCompiler
namespace Text

/-! ## Character boundaries -/

/-- Bytes are counted as the length of the UTF-8 form. -/
theorem byteLength_eq_utf8ByteSize (chars : List Char) :
    byteLength chars = (String.ofList chars).utf8ByteSize := by
  induction chars with
  | nil => simp
  | cons c chars inductionHypothesis =>
      rw [byteLength_cons, inductionHypothesis, String.ofList_cons, String.utf8ByteSize_append,
        String.utf8ByteSize_singleton]

theorem byteLength_toList (text : String) : byteLength text.toList = text.utf8ByteSize := by
  rw [byteLength_eq_utf8ByteSize, String.ofList_toList]

theorem byteLength_eq_zero_iff {chars : List Char} : byteLength chars = 0 ↔ chars = [] := by
  cases chars with
  | nil => simp
  | cons c chars =>
      have positive := Char.utf8Size_pos c
      simp only [byteLength_cons, reduceCtorEq, iff_false]
      omega

/-- The number of characters before an offset is found exactly if some leading
characters take up that many bytes. -/
theorem charIndexFrom_eq_some_iff
    {count offset index : Nat}
    {chars : List Char} :
    charIndexFrom count offset chars = some index ↔
      ∃ before after, chars = before ++ after ∧ byteLength before = offset ∧
        index = count + before.length := by
  induction count, offset, chars using charIndexFrom.induct with
  | case1 chars count =>
      rw [charIndexFrom, Option.some.injEq]
      constructor
      · rintro rfl
        exact ⟨[], chars, rfl, rfl, rfl⟩
      · rintro ⟨before, after, -, empty, rfl⟩
        rw [byteLength_eq_zero_iff.mp empty]
        rfl
  | case2 count offset =>
      rw [charIndexFrom]
      refine ⟨nofun, ?_⟩
      rintro ⟨before, after, split, bytes, -⟩
      rw [(List.append_eq_nil_iff.mp split.symm).1] at bytes
      exact absurd bytes nofun
  | case3 count offset c chars fits inductionHypothesis =>
      rw [charIndexFrom, if_pos fits, inductionHypothesis]
      clear inductionHypothesis
      constructor
      · rintro ⟨before, after, rfl, bytes, rfl⟩
        refine ⟨c :: before, after, rfl, ?_, ?_⟩
        · rw [byteLength_cons]
          omega
        · rw [List.length_cons]
          omega
      · rintro ⟨before, after, split, bytes, rfl⟩
        cases before with
        | nil => exact absurd bytes nofun
        | cons first before =>
            obtain ⟨rfl, rfl⟩ := List.cons.inj split
            rw [byteLength_cons] at bytes
            refine ⟨before, after, rfl, by omega, ?_⟩
            rw [List.length_cons]
            omega
  | case4 count offset c chars tooWide =>
      rw [charIndexFrom, if_neg tooWide]
      refine ⟨nofun, ?_⟩
      rintro ⟨before, after, split, bytes, -⟩
      cases before with
      | nil => exact absurd bytes nofun
      | cons first before =>
          obtain ⟨rfl, rfl⟩ := List.cons.inj split
          rw [byteLength_cons] at bytes
          omega

theorem charIndex?_eq_some_iff
    {source : String}
    {offset index : Nat} :
    charIndex? source.toList offset = some index ↔
      ∃ before after, source = before ++ after ∧ before.utf8ByteSize = offset ∧
        index = before.toList.length := by
  rw [charIndex?, charIndexFrom_eq_some_iff]
  constructor
  · rintro ⟨before, after, split, bytes, rfl⟩
    refine ⟨String.ofList before, String.ofList after, ?_, ?_, ?_⟩
    · rw [← String.ofList_append, ← split, String.ofList_toList]
    · rw [← byteLength_eq_utf8ByteSize, bytes]
    · rw [String.toList_ofList, Nat.zero_add]
  · rintro ⟨before, after, rfl, rfl, rfl⟩
    exact ⟨before.toList, after.toList, String.toList_append, byteLength_toList before,
      (Nat.zero_add _).symm⟩

/-- An offset is found exactly if it is a character boundary. -/
theorem isBoundary_iff
    {source : String}
    {offset : Nat} :
    isBoundary source offset = true ↔ String.Pos.Raw.IsValid source ⟨offset⟩ := by
  rw [isBoundary, Option.isSome_iff_exists, String.Pos.Raw.isValid_iff_exists_append]
  constructor
  · rintro ⟨index, found⟩
    obtain ⟨before, after, split, rfl, -⟩ := charIndex?_eq_some_iff.mp found
    exact ⟨before, after, split, rfl⟩
  · rintro ⟨before, after, split, same⟩
    exact ⟨_, charIndex?_eq_some_iff.mpr
      ⟨before, after, split, (congrArg String.Pos.Raw.byteIdx same).symm, rfl⟩⟩

/-- The text of a span lies between the characters that its ends count. -/
theorem slice?_eq_some_iff_between
    {source text : String}
    {span : Span} :
    slice? source span = some text ↔
      span.start ≤ span.next ∧ ∃ first next,
        charIndex? source.toList span.start = some first ∧
        charIndex? source.toList span.next = some next ∧
        String.ofList ((source.toList.drop first).take (next - first)) = text := by
  by_cases ordered : span.start ≤ span.next
  · simp [slice?, guard, ordered, Option.bind_eq_some_iff]
  · have notDefined : slice? source span = none := by
      rw [slice?, guard, if_neg ordered]
      rfl
    simp [notDefined, ordered]

/-- The text of a span can be sliced out of a source: the ends of the span are in
order, within the source and character boundaries. -/
structure IsSlice (source : String) (span : Span) : Prop where
  ordered : span.start ≤ span.next
  within : span.next ≤ source.utf8ByteSize
  startsAtBoundary : String.Pos.Raw.IsValid source ⟨span.start⟩
  endsAtBoundary : String.Pos.Raw.IsValid source ⟨span.next⟩

/-- The four tests of a span. -/
theorem fits_iff
    {source : String}
    {span : Span} :
    fits source span = true ↔ IsSlice source span := by
  simp only [fits, Bool.and_eq_true, decide_eq_true_eq, byteLength_toList, isBoundary_iff]
  constructor
  · rintro ⟨⟨⟨ordered, within⟩, starts⟩, ends⟩
    exact ⟨ordered, within, starts, ends⟩
  · rintro ⟨ordered, within, starts, ends⟩
    exact ⟨⟨⟨ordered, within⟩, starts⟩, ends⟩

/-- The text of a span is defined exactly if the span passes the four tests. -/
theorem exists_slice?_iff
    {source : String}
    {span : Span} :
    (∃ text, slice? source span = some text) ↔ IsSlice source span := by
  simp only [slice?_eq_some_iff_between]
  constructor
  · rintro ⟨text, ordered, first, next, isFirst, isNext, -⟩
    have starts := isBoundary_iff.mp (Option.isSome_of_eq_some isFirst)
    have ends := isBoundary_iff.mp (Option.isSome_of_eq_some isNext)
    exact ⟨ordered, ends.le_rawEndPos, starts, ends⟩
  · rintro ⟨ordered, -, starts, ends⟩
    obtain ⟨first, isFirst⟩ := Option.isSome_iff_exists.mp (isBoundary_iff.mpr starts)
    obtain ⟨next, isNext⟩ := Option.isSome_iff_exists.mp (isBoundary_iff.mpr ends)
    exact ⟨_, ordered, first, next, isFirst, isNext, rfl⟩

/-- A part of a text is the slice between the bytes before it and those before
what follows it. -/
theorem slice?_eq_some_of_append
    (before text after : String) :
    slice? (before ++ text ++ after)
      { start := before.utf8ByteSize, next := (before ++ text).utf8ByteSize } = some text := by
  refine slice?_eq_some_iff_between.mpr ⟨?_, _, _,
    charIndex?_eq_some_iff.mpr ⟨before, text ++ after, String.append_assoc, rfl, rfl⟩,
    charIndex?_eq_some_iff.mpr ⟨before ++ text, after, rfl, rfl, rfl⟩, ?_⟩
  · rw [String.utf8ByteSize_append]
    exact Nat.le_add_right _ _
  · simp [String.toList_append]

/-- Of two parts at the start of a text, the one of fewer bytes starts the other. -/
theorem exists_eq_append_of_utf8ByteSize_le
    {before after longer rest : String}
    (same : before ++ after = longer ++ rest)
    (fewer : before.utf8ByteSize ≤ longer.utf8ByteSize) :
    ∃ between, longer = before ++ between := by
  have sameChars : before.toList ++ after.toList = longer.toList ++ rest.toList := by
    rw [← String.toList_append, same, String.toList_append]
  rcases List.append_eq_append_iff.mp sameChars with ⟨between, split, -⟩ | ⟨between, split, -⟩
  · refine ⟨String.ofList between, String.toList_inj.mp ?_⟩
    rw [String.toList_append, String.toList_ofList, split]
  · have isLonger : before = longer ++ String.ofList between := by
      refine String.toList_inj.mp ?_
      rw [String.toList_append, String.toList_ofList, split]
    rw [isLonger, String.utf8ByteSize_append] at fewer
    have nothing : String.ofList between = "" := String.utf8ByteSize_eq_zero_iff.mp (by omega)
    rw [isLonger, nothing, String.append_empty]
    exact ⟨"", String.append_empty.symm⟩

/-- A slice is a part of the text, after as many bytes as its span tells. -/
theorem exists_append_of_slice?_eq_some
    {source text : String}
    {span : Span}
    (sliced : slice? source span = some text) :
    ∃ before after, source = before ++ text ++ after ∧
      before.utf8ByteSize = span.start ∧ (before ++ text).utf8ByteSize = span.next := by
  obtain ⟨ordered, _, _, isFirst, isNext, between⟩ := slice?_eq_some_iff_between.mp sliced
  obtain ⟨before, rest, starts, bytesBefore, rfl⟩ := charIndex?_eq_some_iff.mp isFirst
  obtain ⟨longer, after, ends, bytes, rfl⟩ := charIndex?_eq_some_iff.mp isNext
  rw [← bytesBefore, ← bytes] at ordered
  obtain ⟨inside, rfl⟩ := exists_eq_append_of_utf8ByteSize_le (starts.symm.trans ends) ordered
  have isText : inside = text := by
    rw [← between, ends]
    simp [String.toList_append]
  subst isText
  exact ⟨before, after, ends, bytesBefore, bytes⟩

/-! ## Lines -/

/-- A line starts after the characters that end the one before it. -/
theorem lt_of_mem_lineStartsFrom
    {offset : Nat}
    {chars : List Char}
    {start : Nat}
    (member : start ∈ lineStartsFrom offset chars) :
    offset < start := by
  induction offset, chars using lineStartsFrom.induct with
  | case1 offset => exact absurd member List.not_mem_nil
  | case2 offset chars inductionHypothesis =>
      rw [lineStartsFrom, List.mem_cons] at member
      rcases member with rfl | later
      · omega
      · have := inductionHypothesis later
        omega
  | case3 offset c chars notPair ends inductionHypothesis =>
      rw [lineStartsFrom, if_pos ends, List.mem_cons] at member
      rcases member with rfl | later
      · omega
      · have := inductionHypothesis later
        omega
      · exact notPair
  | case4 offset c chars notPair goesOn inductionHypothesis =>
      rw [lineStartsFrom, if_neg goesOn] at member
      · have := inductionHypothesis member
        omega
      · exact notPair

theorem lineStartsFrom_increases
    (offset : Nat)
    (chars : List Char) :
    (lineStartsFrom offset chars).Pairwise (· < ·) := by
  induction offset, chars using lineStartsFrom.induct with
  | case1 offset => exact List.Pairwise.nil
  | case2 offset chars inductionHypothesis =>
      rw [lineStartsFrom]
      exact inductionHypothesis.cons fun start member => lt_of_mem_lineStartsFrom member
  | case3 offset c chars notPair ends inductionHypothesis =>
      rw [lineStartsFrom, if_pos ends]
      · exact inductionHypothesis.cons fun start member => lt_of_mem_lineStartsFrom member
      · exact notPair
  | case4 offset c chars notPair goesOn inductionHypothesis =>
      rw [lineStartsFrom, if_neg goesOn]
      · exact inductionHypothesis
      · exact notPair

/-- The lines of a source start at increasing offsets, the first one at zero. -/
theorem lineStarts_increases (source : String) : (lineStarts source).Pairwise (· < ·) :=
  (lineStartsFrom_increases 0 source.toList).cons fun _ member => lt_of_mem_lineStartsFrom member

/-- The members of an increasing list that are not above a bound are its first
ones. -/
theorem exists_partition_of_increases
    {starts : List Nat}
    (increases : starts.Pairwise (· < ·))
    (bound : Nat) :
    ∃ after, starts = starts.filter (· ≤ bound) ++ after ∧ ∀ start ∈ after, bound < start := by
  induction starts with
  | nil => exact ⟨[], rfl, nofun⟩
  | cons first others inductionHypothesis =>
      obtain ⟨below, othersIncrease⟩ := List.pairwise_cons.mp increases
      obtain ⟨after, split, above⟩ := inductionHypothesis othersIncrease
      by_cases inBound : first ≤ bound
      · refine ⟨after, ?_, above⟩
        rw [List.filter_cons_of_pos (by simpa using inBound), List.cons_append, ← split]
      · have none : others.filter (· ≤ bound) = [] := by
          rw [List.filter_eq_nil_iff]
          intro start member
          have := below start member
          simp only [decide_eq_true_eq]
          omega
        refine ⟨first :: others, ?_, ?_⟩
        · rw [List.filter_cons_of_neg (by simpa using inBound), none, List.nil_append]
        · intro start member
          rcases List.mem_cons.mp member with rfl | later
          · omega
          · have := below start later
            omega

/-- The look-up of an offset in the table of line starts is defined.  The offset,
or the end of the source if it lies beyond, is on the line that is found, and
the column is counted from the start of that line. -/
structure IsLocated (source : String) (offset : Nat) : Prop where
  increases : (lineStarts source).Pairwise (· < ·)
  found : ∃ before start after,
    lineStarts source = before ++ start :: after ∧
      start ≤ min offset source.utf8ByteSize ∧
      (∀ later ∈ after, min offset source.utf8ByteSize < later) ∧
      locate source offset =
        (before.length + 1, columnFrom source start (min offset source.utf8ByteSize) + 1)

/-- Every offset is located. -/
theorem isLocated (source : String) (offset : Nat) : IsLocated source offset := by
  refine ⟨lineStarts_increases source, ?_⟩
  rw [← byteLength_toList]
  generalize bounded : min offset (byteLength source.toList) = bound
  obtain ⟨after, split, above⟩ := exists_partition_of_increases (lineStarts_increases source) bound
  obtain ⟨before, start, passed⟩ : ∃ before start,
      (lineStarts source).filter (· ≤ bound) = before ++ [start] := by
    rcases List.eq_nil_or_concat ((lineStarts source).filter (· ≤ bound)) with none | last
    · simp [lineStarts] at none
    · simpa using last
  have inBound : start ∈ (lineStarts source).filter (· ≤ bound) := by simp [passed]
  refine ⟨before, start, after, ?_, ?_, above, ?_⟩
  · rw [split, passed, List.append_assoc, List.singleton_append]
  · simpa using (List.mem_filter.mp inBound).2
  · simp [locate, bounded, passed]

/-- A line starts after some of the characters. -/
theorem exists_append_of_mem_lineStartsFrom
    {offset : Nat}
    {chars : List Char}
    {start : Nat}
    (member : start ∈ lineStartsFrom offset chars) :
    ∃ before after, chars = before ++ after ∧ offset + byteLength before = start := by
  induction offset, chars using lineStartsFrom.induct with
  | case1 offset => exact absurd member List.not_mem_nil
  | case2 offset chars inductionHypothesis =>
      rw [lineStartsFrom, List.mem_cons] at member
      rcases member with rfl | later
      · exact ⟨['\r', '\n'], chars, rfl, rfl⟩
      · obtain ⟨before, after, rfl, rfl⟩ := inductionHypothesis later
        refine ⟨'\r' :: '\n' :: before, after, rfl, ?_⟩
        rw [byteLength_cons, byteLength_cons, show '\r'.utf8Size = 1 from rfl,
          show '\n'.utf8Size = 1 from rfl]
        omega
  | case3 offset c chars notPair ends inductionHypothesis =>
      have oneByte : c.utf8Size = 1 := by rcases ends with rfl | rfl <;> rfl
      rw [lineStartsFrom, if_pos ends, List.mem_cons] at member
      rcases member with rfl | later
      · exact ⟨[c], chars, rfl, by rw [byteLength_cons, oneByte, byteLength_nil]⟩
      · obtain ⟨before, after, rfl, rfl⟩ := inductionHypothesis later
        refine ⟨c :: before, after, rfl, ?_⟩
        rw [byteLength_cons, oneByte]
        omega
      · exact notPair
  | case4 offset c chars notPair goesOn inductionHypothesis =>
      rw [lineStartsFrom, if_neg goesOn] at member
      · obtain ⟨before, after, rfl, rfl⟩ := inductionHypothesis member
        refine ⟨c :: before, after, rfl, ?_⟩
        rw [byteLength_cons]
        omega
      · exact notPair

/-- Lines start at character boundaries. -/
theorem isValid_of_mem_lineStarts
    {source : String}
    {start : Nat}
    (member : start ∈ lineStarts source) :
    String.Pos.Raw.IsValid source ⟨start⟩ := by
  rcases List.mem_cons.mp member with rfl | later
  · exact String.Pos.Raw.isValid_zero
  · obtain ⟨before, after, split, bytes⟩ := exists_append_of_mem_lineStartsFrom later
    rw [Nat.zero_add] at bytes
    refine String.Pos.Raw.isValid_iff_exists_append.mpr
      ⟨String.ofList before, String.ofList after, ?_, ?_⟩
    · rw [← String.ofList_append, ← split, String.ofList_toList]
    · rw [← bytes, byteLength_eq_utf8ByteSize]
      rfl

/-- An offset stands on a line, counted from one, after some characters of the
line; its column is the place of the next one. -/
def StandsAt (source : String) (offset line column : Nat) : Prop :=
  ∃ before start after onLine,
    lineStarts source = before ++ start :: after ∧
      (∀ later ∈ after, offset < later) ∧
      slice? source { start, next := offset } = some onLine ∧
      line = before.length + 1 ∧
      column = onLine.toList.length + 1

/-- The look-up of a character boundary counts characters. -/
theorem standsAt_locate
    {source : String}
    {offset : Nat}
    (boundary : String.Pos.Raw.IsValid source ⟨offset⟩) :
    StandsAt source offset (locate source offset).1 (locate source offset).2 := by
  have inside : min offset source.utf8ByteSize = offset := Nat.min_eq_left boundary.le_rawEndPos
  obtain ⟨before, start, after, starts, notAfter, isLast, located⟩ := (isLocated source offset).found
  rw [inside] at notAfter isLast located
  have startsAtBoundary : String.Pos.Raw.IsValid source ⟨start⟩ :=
    isValid_of_mem_lineStarts (starts ▸ List.mem_append_right _ List.mem_cons_self)
  have isSlice : IsSlice source { start, next := offset } :=
    ⟨notAfter, boundary.le_rawEndPos, startsAtBoundary, boundary⟩
  obtain ⟨onLine, found⟩ := exists_slice?_iff.mpr isSlice
  refine ⟨before, start, after, onLine, starts, isLast, found, ?_, ?_⟩
  · rw [located]
  · rw [located, columnFrom, found]

end Text
end GrammarCompiler
