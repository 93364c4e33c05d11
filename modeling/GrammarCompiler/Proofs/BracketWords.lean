import Mathlib.Data.List.Basic

/-!
# Correctly nested words

A text is correctly nested if its brackets, of three kinds, can be paired off so that
pairs do not cross; other characters do not matter.  A scanner keeps the open
brackets on a stack.  Nested texts are those that lead it from the empty stack to
the empty stack, and then they lead it from every stack back to the same stack.
-/

namespace GrammarCompiler

/-- The kinds of brackets. -/
inductive Bracket where
  | round
  | curly
  | square
  deriving DecidableEq

namespace Bracket

/-- The character that opens a bracket. -/
def opening : Bracket → Char
  | .round => '('
  | .curly => '{'
  | .square => '['

/-- The character that closes a bracket. -/
def closing : Bracket → Char
  | .round => ')'
  | .curly => '}'
  | .square => ']'

/-- All kinds. -/
def all : List Bracket := [.round, .curly, .square]

theorem mem_all (bracket : Bracket) : bracket ∈ all := by
  cases bracket <;> decide

end Bracket

/-- A character that is no bracket. -/
def IsPlain (c : Char) : Prop :=
  ∀ bracket : Bracket, c ≠ bracket.opening ∧ c ≠ bracket.closing

/-- A word whose brackets are correctly nested. -/
inductive WellNested : List Char → Prop where
  | nil : WellNested []
  /-- Other characters do not matter. -/
  | plain {c : Char} {rest : List Char} :
      IsPlain c → WellNested rest → WellNested (c :: rest)
  /-- A bracket is closed after a nested word, and a nested word follows. -/
  | pair (bracket : Bracket) {inner rest : List Char} :
      WellNested inner → WellNested rest →
        WellNested (bracket.opening :: (inner ++ bracket.closing :: rest))

/-! ## The scanner -/

namespace Brackets

/-- The open brackets, the innermost first. -/
abbrev Stack := List Bracket

/-- Read one character: open a bracket, close the innermost one, or go on.  To close
a bracket that is not the innermost one fails. -/
def read (stack : Stack) (c : Char) : Option Stack :=
  match Bracket.all.find? (·.opening = c) with
  | some bracket => some (bracket :: stack)
  | none =>
      match Bracket.all.find? (·.closing = c) with
      | none => some stack
      | some bracket =>
          match stack with
          | [] => none
          | innermost :: others => if innermost = bracket then some others else none

/-- Read characters one after the other. -/
def scan : Stack → List Char → Option Stack
  | stack, [] => some stack
  | stack, c :: chars => (read stack c).bind (scan · chars)

theorem read_opening (stack : Stack) (bracket : Bracket) :
    read stack bracket.opening = some (bracket :: stack) := by
  cases bracket <;> rfl

theorem read_closing (stack : Stack) (bracket : Bracket) :
    read (bracket :: stack) bracket.closing = some stack := by
  cases bracket <;> rfl

theorem read_plain
    {c : Char}
    (isPlain : IsPlain c)
    (stack : Stack) :
    read stack c = some stack := by
  have notOpening : Bracket.all.find? (·.opening = c) = none := by
    rw [List.find?_eq_none]
    intro bracket _
    simpa using (isPlain bracket).1.symm
  have notClosing : Bracket.all.find? (·.closing = c) = none := by
    rw [List.find?_eq_none]
    intro bracket _
    simpa using (isPlain bracket).2.symm
  rw [read, notOpening, notClosing]

theorem scan_append (stack : Stack) (left right : List Char) :
    scan stack (left ++ right) = (scan stack left).bind (scan · right) := by
  induction left generalizing stack with
  | nil => rfl
  | cons c left inductionHypothesis =>
      simp only [List.cons_append, scan, inductionHypothesis, Option.bind_assoc]

/-- What a character does to the stack when it can be read. -/
theorem read_cases
    {stack after : Stack}
    {c : Char}
    (succeeds : read stack c = some after) :
    (∃ bracket : Bracket, c = bracket.opening ∧ after = bracket :: stack) ∨
      (∃ bracket : Bracket, c = bracket.closing ∧ stack = bracket :: after) ∨
      IsPlain c ∧ after = stack := by
  unfold read at succeeds
  split at succeeds
  · next bracket opens =>
      have isOpening : bracket.opening = c := by simpa using List.find?_some opens
      exact .inl ⟨bracket, isOpening.symm, (Option.some.inj succeeds).symm⟩
  · next notOpening =>
      rw [List.find?_eq_none] at notOpening
      split at succeeds
      · next notClosing =>
          rw [List.find?_eq_none] at notClosing
          refine .inr (.inr ⟨fun bracket => ⟨?_, ?_⟩, (Option.some.inj succeeds).symm⟩)
          · simpa using fun isOpening => notOpening bracket bracket.mem_all (by simp [isOpening])
          · simpa using fun isClosing => notClosing bracket bracket.mem_all (by simp [isClosing])
      · next bracket closes =>
          have isClosing : bracket.closing = c := by simpa using List.find?_some closes
          split at succeeds
          · cases succeeds
          · split at succeeds
            · next same =>
                cases succeeds
                exact .inr (.inl ⟨bracket, isClosing.symm, by rw [same]⟩)
            · cases succeeds

end Brackets

/-- A nested word leads the scanner back to the same stack. -/
theorem WellNested.scan_eq
    {chars : List Char}
    (nested : WellNested chars)
    (stack : Brackets.Stack) :
    Brackets.scan stack chars = some stack := by
  induction nested generalizing stack with
  | nil => rfl
  | plain isPlain _ inductionHypothesis =>
      rw [Brackets.scan, Brackets.read_plain isPlain, Option.bind_some, inductionHypothesis]
  | pair bracket _ _ ofInner ofRest =>
      rw [Brackets.scan, Brackets.read_opening, Option.bind_some, Brackets.scan_append, ofInner,
        Option.bind_some, Brackets.scan, Brackets.read_closing, Option.bind_some, ofRest]

namespace Brackets

/-- Words that close the brackets of a stack, with nested words between. -/
inductive Closes : Stack → List Char → Prop where
  | nested {chars : List Char} : WellNested chars → Closes [] chars
  | closing (bracket : Bracket) {stack : Stack} {inner rest : List Char} :
      WellNested inner → Closes stack rest →
        Closes (bracket :: stack) (inner ++ bracket.closing :: rest)

namespace Closes

variable {stack : Stack} {rest : List Char}

theorem plain
    {c : Char}
    (isPlain : IsPlain c)
    (closes : Closes stack rest) :
    Closes stack (c :: rest) := by
  cases closes with
  | nested isNested => exact .nested (.plain isPlain isNested)
  | closing bracket ofInner ofRest => exact .closing bracket (.plain isPlain ofInner) ofRest

theorem pair
    (bracket : Bracket)
    {inner : List Char}
    (ofInner : WellNested inner)
    (closes : Closes stack rest) :
    Closes stack (bracket.opening :: (inner ++ bracket.closing :: rest)) := by
  cases closes with
  | nested isNested => exact .nested (.pair bracket ofInner isNested)
  | closing outer ofBetween ofRest =>
      have closesOuter := closing outer (.pair bracket ofInner ofBetween) ofRest
      rwa [List.cons_append, List.append_assoc, List.cons_append] at closesOuter

end Closes

/-- A word that empties the stack closes its brackets. -/
theorem closes_of_scan
    {stack : Stack}
    {chars : List Char}
    (empties : scan stack chars = some []) :
    Closes stack chars := by
  induction chars generalizing stack with
  | nil =>
      cases empties
      exact .nested .nil
  | cons c chars inductionHypothesis =>
      obtain ⟨after, isRead, empties⟩ := Option.bind_eq_some_iff.mp empties
      have closes := inductionHypothesis empties
      rcases read_cases isRead with ⟨bracket, rfl, rfl⟩ | ⟨bracket, rfl, rfl⟩ | ⟨isPlain, rfl⟩
      · cases closes with
        | closing _ ofInner ofRest => exact .pair bracket ofInner ofRest
      · exact .closing bracket .nil closes
      · exact .plain isPlain closes

end Brackets

/-- Nested words are those that the scanner reads from the empty stack to the empty
stack. -/
theorem wellNested_iff_scan
    {chars : List Char} :
    WellNested chars ↔ Brackets.scan [] chars = some [] := by
  constructor
  · exact fun nested => nested.scan_eq []
  · intro empties
    cases Brackets.closes_of_scan empties with
    | nested isNested => exact isNested

instance (chars : List Char) : Decidable (WellNested chars) :=
  decidable_of_iff _ wellNested_iff_scan.symm

/-! ## Nested texts -/

/-- A text whose brackets are correctly nested. -/
def Text.IsNested (text : String) : Prop :=
  WellNested text.toList

instance (text : String) : Decidable (Text.IsNested text) :=
  inferInstanceAs (Decidable (WellNested text.toList))

namespace Brackets

/-- Go on with a text, unless reading failed before. -/
def scanFrom (state : Option Stack) (text : String) : Option Stack :=
  state.bind (scan · text.toList)

theorem scanFrom_append (state : Option Stack) (left right : String) :
    scanFrom state (left ++ right) = scanFrom (scanFrom state left) right := by
  simp only [scanFrom, String.toList_append, scan_append, Option.bind_assoc]

/-- Literals are texts of this form, so the scanner can be run on the words of a
template. -/
theorem scanFrom_ofList (state : Option Stack) (chars : List Char) :
    scanFrom state (String.ofList chars) = state.bind (scan · chars) := by
  rw [scanFrom, String.toList_ofList]

end Brackets

namespace Text

theorem isNested_iff
    {text : String} :
    IsNested text ↔ Brackets.scanFrom (some []) text = some [] :=
  wellNested_iff_scan

theorem isNested_of_isPlain
    {text : String}
    (plain : ∀ c ∈ text.toList, IsPlain c) :
    IsNested text := by
  rw [IsNested]
  generalize text.toList = chars at plain
  induction chars with
  | nil => exact .nil
  | cons c chars inductionHypothesis =>
      obtain ⟨ofFirst, ofOthers⟩ := List.forall_mem_cons.mp plain
      exact .plain ofFirst (inductionHypothesis ofOthers)

theorem isNested_empty : IsNested "" :=
  isNested_of_isPlain nofun

/-- A nested text can be skipped. -/
theorem IsNested.scanFrom_eq
    {text : String}
    (nested : IsNested text)
    (state : Option Brackets.Stack) :
    Brackets.scanFrom state text = state := by
  cases state with
  | none => rfl
  | some stack => exact nested.scan_eq stack

theorem IsNested.append
    {left right : String}
    (ofLeft : IsNested left)
    (ofRight : IsNested right) :
    IsNested (left ++ right) := by
  rw [isNested_iff, Brackets.scanFrom_append, ofLeft.scanFrom_eq, ofRight.scanFrom_eq]

end Text
end GrammarCompiler
