import GrammarCompiler.Proofs.EmittedSegments
import GrammarCompiler.Proofs.SourceSlices
import Mathlib.Data.List.Chain

/-!
# The lines of a source

A source is made of lines that end with a carriage return and a line feed, or with
either alone, and of a last line without an end.  Cutting it at its line starts
gives just these lines, and the look-up of an offset finds the line on which the
offset lies.
-/

namespace GrammarCompiler
namespace Text

/-! ## Lines and their ends -/

/-- The texts that end a line. -/
def lineTerminators : List String :=
  ["\r\n", "\n", "\r"]

/-- A text stays on one line. -/
def StaysOnLine (text : String) : Prop :=
  '\r' ∉ text.toList ∧ '\n' ∉ text.toList

/-- A line with its end, which it holds once and after everything else. -/
def IsEndedLine (line : String) : Prop :=
  ∃ content terminator, StaysOnLine content ∧ terminator ∈ lineTerminators ∧
    line = content ++ terminator

/-- A carriage return at the end of a line is not cut off from a line feed. -/
def SplitsNoPair (line next : String) : Prop :=
  line.toList.getLast? = some '\r' → next.toList.head? ≠ some '\n'

/-- How a source is made up of lines with their ends and of a last line. -/
inductive HasLines : String → List String → String → Prop where
  | last {line : String} : StaysOnLine line → HasLines line [] line
  | line {content terminator rest last : String} {ended : List String} :
      StaysOnLine content → terminator ∈ lineTerminators →
        (terminator = "\r" → rest.toList.head? ≠ some '\n') → HasLines rest ended last →
          HasLines (content ++ terminator ++ rest) ((content ++ terminator) :: ended) last

/-- A character that ends no line belongs to the first line. -/
theorem HasLines.exists_cons
    {source last : String}
    {ended : List String}
    (hasLines : HasLines source ended last)
    {c : Char}
    (endsNoLine : ¬(c = '\n' ∨ c = '\r')) :
    ∃ ended last, HasLines (String.ofList [c] ++ source) ended last := by
  obtain ⟨notLineFeed, notReturn⟩ := not_or.mp endsNoLine
  have stays {text : String} (onLine : StaysOnLine text) :
      StaysOnLine (String.ofList [c] ++ text) := by
    simpa [StaysOnLine, notLineFeed, notReturn, eq_comm] using onLine
  cases hasLines with
  | last onLine => exact ⟨_, _, .last (stays onLine)⟩
  | @line content terminator rest _ ended onLine isTerminator alone others =>
      have grown := HasLines.line (stays onLine) isTerminator alone others
      refine ⟨(String.ofList [c] ++ content ++ terminator) :: ended, last, ?_⟩
      simpa only [String.append_assoc] using grown

/-- All characters are made up of lines. -/
theorem exists_hasLines_ofList
    (offset : Nat)
    (chars : List Char) :
    ∃ ended last, HasLines (String.ofList chars) ended last := by
  have empty : StaysOnLine "" := ⟨nofun, nofun⟩
  induction offset, chars using lineStartsFrom.induct with
  | case1 offset => exact ⟨[], "", .last empty⟩
  | case2 offset chars inductionHypothesis =>
      obtain ⟨ended, last, hasLines⟩ := inductionHypothesis
      have isPair : "\r\n" ∈ lineTerminators := List.mem_cons_self
      have notAlone : "\r\n" ≠ "\r" := by decide
      have grown := HasLines.line empty isPair (fun isReturn => absurd isReturn notAlone) hasLines
      rw [String.empty_append, ← String.ofList_toList (s := "\r\n"),
        ← String.ofList_append] at grown
      exact ⟨_, last, grown⟩
  | case3 offset c chars notPair ends inductionHypothesis =>
      obtain ⟨ended, last, hasLines⟩ := inductionHypothesis
      have isTerminator : String.ofList [c] ∈ lineTerminators := by
        rcases ends with rfl | rfl <;> decide
      have alone (isReturn : String.ofList [c] = "\r") :
          (String.ofList chars).toList.head? ≠ some '\n' := by
        have sameChar : c = '\r' := by simpa using congrArg String.toList isReturn
        rw [String.toList_ofList]
        intro startsWithLineFeed
        obtain ⟨others, rfl⟩ := List.head?_eq_some_iff.mp startsWithLineFeed
        exact notPair others sameChar rfl
      have grown := HasLines.line empty isTerminator alone hasLines
      rw [String.empty_append, ← String.ofList_append] at grown
      exact ⟨_, last, grown⟩
  | case4 offset c chars notPair goesOn inductionHypothesis =>
      obtain ⟨ended, last, hasLines⟩ := inductionHypothesis
      have grown := hasLines.exists_cons goesOn
      rwa [← String.ofList_append] at grown

theorem exists_hasLines (source : String) : ∃ ended last, HasLines source ended last := by
  simpa using exists_hasLines_ofList 0 source.toList

namespace HasLines

variable {source last : String} {ended : List String}

theorem concat_eq (hasLines : HasLines source ended last) : concat (ended ++ [last]) = source := by
  induction hasLines with
  | last => exact String.append_empty
  | line _ _ _ _ inductionHypothesis => rw [List.cons_append, concat, inductionHypothesis]

theorem isEndedLine
    (hasLines : HasLines source ended last) :
    ∀ line ∈ ended, IsEndedLine line := by
  induction hasLines with
  | last => exact nofun
  | line onLine isTerminator _ _ inductionHypothesis =>
      exact List.forall_mem_cons.mpr ⟨⟨_, _, onLine, isTerminator, rfl⟩, inductionHypothesis⟩

theorem staysOnLine_last (hasLines : HasLines source ended last) : StaysOnLine last := by
  induction hasLines with
  | last onLine => exact onLine
  | line _ _ _ _ inductionHypothesis => exact inductionHypothesis

theorem isChain_splitsNoPair
    (hasLines : HasLines source ended last) :
    (ended ++ [last]).IsChain SplitsNoPair := by
  induction hasLines with
  | last => exact .singleton _
  | @line content terminator rest last ended onLine isTerminator alone others inductionHypothesis =>
      rw [List.cons_append, List.isChain_cons]
      refine ⟨fun next isNext endsWithReturn startsWithLineFeed => ?_, inductionHypothesis⟩
      have isReturn : terminator = "\r" := by
        simp only [lineTerminators, List.mem_cons, List.not_mem_nil, or_false] at isTerminator
        rcases isTerminator with rfl | rfl | rfl
        · simp at endsWithReturn
        · simp at endsWithReturn
        · rfl
      -- The first of the other lines starts where they start together.
      refine alone isReturn ?_
      obtain ⟨lines, isFirst⟩ := List.head?_eq_some_iff.mp isNext
      rw [← others.concat_eq, isFirst, concat, String.toList_append]
      rw [List.head?_append, startsWithLineFeed, Option.some_or]

end HasLines

/-! ## Where lines start -/

/-- The offsets at which lines that start at a given offset end. -/
def lineEndsFrom (offset : Nat) : List String → List Nat
  | [] => []
  | line :: lines =>
      (offset + line.utf8ByteSize) :: lineEndsFrom (offset + line.utf8ByteSize) lines

/-- No line starts within a line. -/
theorem lineStartsFrom_append_of_staysOnLine
    {content : List Char}
    (noReturn : '\r' ∉ content)
    (noLineFeed : '\n' ∉ content)
    (offset : Nat)
    (chars : List Char) :
    lineStartsFrom offset (content ++ chars) =
      lineStartsFrom (offset + byteLength content) chars := by
  induction content generalizing offset with
  | nil => rfl
  | cons c content inductionHypothesis =>
      obtain ⟨notReturn, noReturn⟩ := not_or.mp (mt List.mem_cons.mpr noReturn)
      obtain ⟨notLineFeed, noLineFeed⟩ := not_or.mp (mt List.mem_cons.mpr noLineFeed)
      have endsNoLine : ¬(c = '\n' ∨ c = '\r') :=
        not_or.mpr ⟨Ne.symm notLineFeed, Ne.symm notReturn⟩
      rw [List.cons_append, lineStartsFrom, if_neg endsNoLine,
        inductionHypothesis noReturn noLineFeed, byteLength_cons, Nat.add_assoc]
      exact fun _ isReturn => absurd isReturn (Ne.symm notReturn)

/-- The next line starts after the end of a line. -/
theorem lineStartsFrom_append_of_isTerminator
    {terminator : String}
    (isTerminator : terminator ∈ lineTerminators)
    {chars : List Char}
    (alone : terminator = "\r" → chars.head? ≠ some '\n')
    (offset : Nat) :
    lineStartsFrom offset (terminator.toList ++ chars) =
      (offset + terminator.utf8ByteSize) ::
        lineStartsFrom (offset + terminator.utf8ByteSize) chars := by
  simp only [lineTerminators, List.mem_cons, List.not_mem_nil, or_false] at isTerminator
  rcases isTerminator with rfl | rfl | rfl
  · rfl
  · rfl
  · have notPair : ∀ others, '\r' = '\r' → chars = '\n' :: others → False := by
      rintro others - rfl
      exact alone rfl rfl
    change lineStartsFrom offset ('\r' :: chars) = _
    rw [lineStartsFrom, if_pos (.inr rfl)]
    · rfl
    · exact notPair

theorem HasLines.lineStartsFrom_eq
    {source last : String}
    {ended : List String}
    (hasLines : HasLines source ended last)
    (offset : Nat) :
    lineStartsFrom offset source.toList = lineEndsFrom offset ended := by
  induction hasLines generalizing offset with
  | @last line onLine =>
      have ofLine := lineStartsFrom_append_of_staysOnLine onLine.1 onLine.2 offset []
      rwa [List.append_nil] at ofLine
  | line onLine isTerminator alone _ inductionHypothesis =>
      rw [String.toList_append, String.toList_append, List.append_assoc,
        lineStartsFrom_append_of_staysOnLine onLine.1 onLine.2,
        lineStartsFrom_append_of_isTerminator isTerminator alone, inductionHypothesis,
        lineEndsFrom, byteLength_toList, String.utf8ByteSize_append, Nat.add_assoc]

theorem HasLines.lineStarts_eq
    {source last : String}
    {ended : List String}
    (hasLines : HasLines source ended last) :
    lineStarts source = 0 :: lineEndsFrom 0 ended :=
  congrArg (0 :: ·) (hasLines.lineStartsFrom_eq 0)

/-! ## Cutting a source -/

/-- The spans into which line starts cut a source.  The last one goes up to the
end. -/
def lineSpans (source : String) : List Span :=
  List.zipWith Span.mk (lineStarts source) ((lineStarts source).tail ++ [source.utf8ByteSize])

/-- The text between the ends of lines is that of the lines. -/
theorem map_slice?_zipWith_lineEndsFrom
    (before : String)
    (ended : List String)
    (last : String) :
    (List.zipWith Span.mk
        (before.utf8ByteSize :: lineEndsFrom before.utf8ByteSize ended)
        (lineEndsFrom before.utf8ByteSize ended ++
          [(before ++ concat (ended ++ [last])).utf8ByteSize])).map
      (slice? (before ++ concat (ended ++ [last]))) =
        (ended ++ [last]).map some := by
  induction ended generalizing before with
  | nil =>
      have lastSlice := slice?_eq_some_of_append before last ""
      rw [String.append_empty, String.utf8ByteSize_append] at lastSlice
      simp [lineEndsFrom, concat, lastSlice]
  | cons line ended inductionHypothesis =>
      have others := inductionHypothesis (before ++ line)
      have lineSlice := slice?_eq_some_of_append before line (concat (ended ++ [last]))
      rw [String.utf8ByteSize_append] at others lineSlice
      rw [List.cons_append, concat, lineEndsFrom, ← String.append_assoc, List.cons_append,
        List.zipWith_cons_cons, List.map_cons, List.map_cons, lineSlice]
      exact congrArg (some line :: ·) others

theorem HasLines.map_slice?_lineSpans
    {source last : String}
    {ended : List String}
    (hasLines : HasLines source ended last) :
    (lineSpans source).map (slice? source) = (ended ++ [last]).map some := by
  have cut := map_slice?_zipWith_lineEndsFrom "" ended last
  rw [String.empty_append, hasLines.concat_eq] at cut
  rw [lineSpans, hasLines.lineStarts_eq]
  exact cut

/-- A span goes from a line start to the next one, or to the end of the source. -/
theorem getElem?_lineSpans_eq_some_iff
    {source : String}
    {index : Nat}
    {span : Span} :
    (lineSpans source)[index]? = some span ↔
      (lineStarts source)[index]? = some span.start ∧
        (lineStarts source)[index + 1]?.getD source.utf8ByteSize = span.next := by
  have ends (start : Nat) (isStart : (lineStarts source)[index]? = some start) :
      ((lineStarts source).tail ++ [source.utf8ByteSize])[index]? =
        some ((lineStarts source)[index + 1]?.getD source.utf8ByteSize) := by
    obtain ⟨inTable, -⟩ := List.getElem?_eq_some_iff.mp isStart
    rw [List.getElem?_append, List.length_tail, List.getElem?_tail]
    split
    · next inTail =>
        rw [List.getElem?_eq_getElem (by omega)]
        rfl
    · next isLast =>
        have atEnd : index = (lineStarts source).length - 1 := by omega
        rw [List.getElem?_eq_none (l := lineStarts source) (by omega), atEnd, Nat.sub_self]
        rfl
  rw [lineSpans, List.getElem?_zipWith_eq_some]
  constructor
  · rintro ⟨start, next, isStart, isNext, rfl⟩
    exact ⟨isStart, Option.some.inj ((ends start isStart).symm.trans isNext)⟩
  · rintro ⟨isStart, isNext⟩
    exact ⟨span.start, span.next, isStart, isNext ▸ ends span.start isStart, rfl⟩

/-! ## The table of line starts -/

/-- Line starts increase from zero and are character boundaries of the source. -/
structure IsLineTable (source : String) (starts : List Nat) : Prop where
  increases : starts.Pairwise (· < ·)
  first : starts.head? = some 0
  within : ∀ start ∈ starts, start ≤ source.utf8ByteSize
  boundaries : ∀ start ∈ starts, String.Pos.Raw.IsValid source ⟨start⟩

theorem isLineTable_lineStarts (source : String) : IsLineTable source (lineStarts source) where
  increases := lineStarts_increases source
  first := rfl
  within _ isStart := (isValid_of_mem_lineStarts isStart).le_rawEndPos
  boundaries _ isStart := isValid_of_mem_lineStarts isStart

/-- What stands after a member of a list stands in what follows it. -/
theorem mem_of_getElem?_append_cons
    {before after : List Nat}
    {start later : Nat}
    {index : Nat}
    (isLater : before.length < index)
    (found : (before ++ start :: after)[index]? = some later) :
    later ∈ after := by
  rw [List.getElem?_append_right (by omega), List.getElem?_cons, if_neg (by omega)] at found
  exact List.mem_of_getElem? found

theorem lt_of_getElem?_lineStarts
    {source : String}
    {earlier later start laterStart : Nat}
    (isStart : (lineStarts source)[earlier]? = some start)
    (isLater : (lineStarts source)[later]? = some laterStart)
    (inOrder : earlier < later) :
    start < laterStart := by
  obtain ⟨inTable, rfl⟩ := List.getElem?_eq_some_iff.mp isStart
  obtain ⟨laterInTable, rfl⟩ := List.getElem?_eq_some_iff.mp isLater
  exact List.pairwise_iff_getElem.mp (lineStarts_increases source) _ _ inTable laterInTable inOrder

/-! ## Looking lines up -/

/-- A line, counted from zero, is the last of those that start at or before an
offset. -/
def IsLastLineAt (source : String) (offset index : Nat) : Prop :=
  ∃ span, (lineSpans source)[index]? = some span ∧ span.start ≤ offset ∧
    ∀ later line, (lineSpans source)[later]? = some line → line.start ≤ offset → later ≤ index

theorem IsLastLineAt.unique
    {source : String}
    {offset left right : Nat}
    (isLeft : IsLastLineAt source offset left)
    (isRight : IsLastLineAt source offset right) :
    left = right := by
  obtain ⟨leftSpan, leftFound, leftStarts, leftLast⟩ := isLeft
  obtain ⟨rightSpan, rightFound, rightStarts, rightLast⟩ := isRight
  exact Nat.le_antisymm (rightLast left leftSpan leftFound leftStarts)
    (leftLast right rightSpan rightFound rightStarts)

/-- The look-up of an offset finds the last line that starts at or before it. -/
theorem exists_isLastLineAt_locate
    (source : String)
    (offset : Nat) :
    ∃ index, (locate source offset).1 = index + 1 ∧
      IsLastLineAt source (min offset source.utf8ByteSize) index := by
  obtain ⟨before, start, after, starts, notAfter, isLast, located⟩ :=
    (isLocated source offset).found
  have isStart : (lineStarts source)[before.length]? = some start := by simp [starts]
  refine ⟨before.length, congrArg Prod.fst located, ⟨start, _⟩,
    getElem?_lineSpans_eq_some_iff.mpr ⟨isStart, rfl⟩, notAfter,
    fun later line found startsBefore => ?_⟩
  have isLaterStart := (getElem?_lineSpans_eq_some_iff.mp found).1
  rw [starts] at isLaterStart
  by_contra beyond
  have := isLast line.start (mem_of_getElem?_append_cons (Nat.lt_of_not_le beyond) isLaterStart)
  omega

/-- An offset within the span of a line lies on that line. -/
theorem isLastLineAt_of_mem_span
    {source : String}
    {index : Nat}
    {span : Span}
    (isLine : (lineSpans source)[index]? = some span)
    {offset : Nat}
    (notBefore : span.start ≤ offset)
    (notAfter : offset < span.next) :
    IsLastLineAt source offset index := by
  obtain ⟨isStart, isNext⟩ := getElem?_lineSpans_eq_some_iff.mp isLine
  refine ⟨span, isLine, notBefore, fun later line found startsBefore => ?_⟩
  have isLaterStart := (getElem?_lineSpans_eq_some_iff.mp found).1
  by_contra beyond
  obtain ⟨inTable, -⟩ := List.getElem?_eq_some_iff.mp isLaterStart
  have nextStart := List.getElem?_eq_getElem (l := lineStarts source) (i := index + 1) (by omega)
  rw [nextStart, Option.getD_some] at isNext
  rcases Nat.lt_or_eq_of_le (Nat.lt_of_not_le beyond) with further | same
  · have := lt_of_getElem?_lineStarts nextStart isLaterStart further
    omega
  · subst same
    have := Option.some.inj (nextStart.symm.trans isLaterStart)
    omega

theorem locate_of_mem_span
    {source : String}
    {index : Nat}
    {span : Span}
    (isLine : (lineSpans source)[index]? = some span)
    {offset : Nat}
    (notBefore : span.start ≤ offset)
    (notAfter : offset < span.next) :
    (locate source offset).1 = index + 1 := by
  obtain ⟨isStart, isNext⟩ := getElem?_lineSpans_eq_some_iff.mp isLine
  have inSource : span.next ≤ source.utf8ByteSize := by
    rw [← isNext]
    cases found : (lineStarts source)[index + 1]? with
    | none => exact Nat.le_refl _
    | some next => exact (isLineTable_lineStarts source).within next (List.mem_of_getElem? found)
  obtain ⟨found, located, isLast⟩ := exists_isLastLineAt_locate source offset
  rw [Nat.min_eq_left (by omega)] at isLast
  rw [located, isLast.unique (isLastLineAt_of_mem_span isLine notBefore notAfter)]

/-- How the look-up of offsets goes by the lines of a source. -/
structure LooksUpLines (source : String) : Prop where
  /-- Every offset is found, on the last line that starts at or before it. -/
  found (offset : Nat) : ∃ index, (locate source offset).1 = index + 1 ∧
    IsLastLineAt source (min offset source.utf8ByteSize) index
  within {index : Nat} {span : Span} {offset : Nat} :
    (lineSpans source)[index]? = some span → span.start ≤ offset → offset < span.next →
      (locate source offset).1 = index + 1
  /-- The offset between a carriage return and a line feed lies on the line that
  they end. -/
  betweenPair {index : Nat} {span : Span} {content : String} :
    (lineSpans source)[index]? = some span → slice? source span = some (content ++ "\r\n") →
      span.start ≤ span.next - 1 ∧ (locate source (span.next - 1)).1 = index + 1

/-- How a source is cut into lines. -/
structure IsCutIntoLines (source : String) (ended : List String) (last : String) : Prop where
  slices : (lineSpans source).map (slice? source) = (ended ++ [last]).map some
  joined : concat (ended ++ [last]) = source
  ends : ∀ line ∈ ended, IsEndedLine line
  staysOnLine : StaysOnLine last
  pairs : (ended ++ [last]).IsChain SplitsNoPair

/-- The line starts of a source cut it into its lines, and look-ups find the lines
on which offsets lie. -/
theorem source_is_cut_into_lines (source : String) :
    IsLineTable source (lineStarts source) ∧
      (∃ ended last, IsCutIntoLines source ended last) ∧
      LooksUpLines source := by
  refine ⟨isLineTable_lineStarts source, ?_, exists_isLastLineAt_locate source,
    fun isLine => locate_of_mem_span isLine, ?_⟩
  · obtain ⟨ended, last, hasLines⟩ := exists_hasLines source
    exact ⟨ended, last, hasLines.map_slice?_lineSpans, hasLines.concat_eq, hasLines.isEndedLine,
      hasLines.staysOnLine_last, hasLines.isChain_splitsNoPair⟩
  · intro index span content isLine isText
    obtain ⟨before, after, -, bytesBefore, bytes⟩ := exists_append_of_slice?_eq_some isText
    have twoBytes : "\r\n".utf8ByteSize = 2 := by decide
    simp only [String.utf8ByteSize_append, twoBytes] at bytes
    have notBefore : span.start ≤ span.next - 1 := by omega
    exact ⟨notBefore, locate_of_mem_span isLine notBefore (by omega)⟩

example :
    (lineSpans "a\r\n\r\r\n\n\rb").map (slice? "a\r\n\r\r\n\n\rb") =
      [some "a\r\n", some "\r", some "\r\n", some "\n", some "\r", some "b"] := by
  decide

end Text
end GrammarCompiler
