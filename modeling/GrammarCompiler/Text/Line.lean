import GrammarCompiler.Text.Offset

/-!
# Lines of a text

A line ends with a carriage return and a line feed, or with either alone.
Positions are counted from one; columns count characters.
-/

namespace GrammarCompiler
namespace Text

/-- The byte offsets at which a new line starts, in characters that begin at
the given offset. -/
def lineStartsFrom : Nat → List Char → List Nat
  | _, [] => []
  | offset, '\r' :: '\n' :: chars => (offset + 2) :: lineStartsFrom (offset + 2) chars
  | offset, c :: chars =>
      if c = '\n' ∨ c = '\r' then (offset + 1) :: lineStartsFrom (offset + 1) chars
      else lineStartsFrom (offset + c.utf8Size) chars

/-- The byte offsets at which the lines of a source start. -/
def lineStarts (source : String) : List Nat :=
  0 :: lineStartsFrom 0 source.toList

/-- The number of lines of a source. -/
def lineCount (source : String) : Nat :=
  (lineStarts source).length

/-- The column, counted from zero, of an offset on the line that starts at
`lineStart`: the characters before it, or the bytes when the offset lies
inside a character. -/
def columnFrom (source : String) (lineStart offset : Nat) : Nat :=
  match slice? source { start := lineStart, next := offset } with
  | some before => before.toList.length
  | none => offset - lineStart

/-- The line and the column of a byte offset.  An offset past the end stands
for the end. -/
def locate (source : String) (offset : Nat) : Nat × Nat :=
  let offset := min offset (byteLength source.toList)
  let passed := (lineStarts source).filter (· ≤ offset)
  (passed.length, columnFrom source (passed.getLastD 0) offset + 1)

/-- The location of a byte offset in a named file. -/
def location (source file : String) (offset : Nat) : Location :=
  { file, line := (locate source offset).1, column := (locate source offset).2 }

end Text
end GrammarCompiler
