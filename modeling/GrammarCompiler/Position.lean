/-!
# Spans and locations

A span is a half-open range of byte offsets.  A location is a line and a
column in a named file.
-/

namespace GrammarCompiler

/-- The half-open range of byte offsets from `start` up to `next`.  Its ends
need not be in order: a tree that was read may hold any two offsets. -/
structure Span where
  start : Nat := 0
  next : Nat := 0
  deriving DecidableEq, Inhabited

namespace Span

/-- The number of bytes covered; none if the ends are reversed. -/
def length (span : Span) : Nat :=
  span.next - span.start

/-- Nothing is covered. -/
def isEmpty (span : Span) : Bool :=
  span.length == 0

/-- The form `start..next`. -/
def text (span : Span) : String :=
  span.start.repr ++ ".." ++ span.next.repr

/-- A span whose ends are in order. -/
def ordered? (start next : Nat) : Option Span :=
  if start ≤ next then some { start, next } else none

end Span

/-- A line and a column, both counted from one, in a named file. -/
structure Location where
  file : String
  line : Nat
  column : Nat
  deriving DecidableEq, Inhabited

namespace Location

/-- The form `file:line:column`. -/
def text (location : Location) : String :=
  location.file ++ ":" ++ location.line.repr ++ ":" ++ location.column.repr

end Location
end GrammarCompiler
