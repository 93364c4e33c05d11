import GrammarCompiler.Position

/-!
# Byte offsets into a text

Offsets count the bytes of the UTF-8 form.  An offset names a character
boundary exactly when some number of leading characters takes up that many
bytes; the text of a span is defined when both its ends are boundaries.
-/

namespace GrammarCompiler
namespace Text

/-- The number of bytes that the characters take up. -/
def byteLength : List Char → Nat
  | [] => 0
  | c :: chars => c.utf8Size + byteLength chars

@[simp] theorem byteLength_nil : byteLength [] = 0 := rfl

@[simp] theorem byteLength_cons (c : Char) (chars : List Char) :
    byteLength (c :: chars) = c.utf8Size + byteLength chars := rfl

/-- Continue counting: `count` characters lie before the ones given, which
still have `offset` bytes to go. -/
def charIndexFrom (count : Nat) : Nat → List Char → Option Nat
  | 0, _ => some count
  | _ + 1, [] => none
  | offset + 1, c :: chars =>
      if c.utf8Size ≤ offset + 1 then
        charIndexFrom (count + 1) (offset + 1 - c.utf8Size) chars
      else none

/-- The number of characters before a byte offset, if it is a character
boundary of the text. -/
def charIndex? (chars : List Char) (offset : Nat) : Option Nat :=
  charIndexFrom 0 offset chars

/-- The text between two byte offsets, if they are in order and both are
character boundaries. -/
def slice? (source : String) (span : Span) : Option String := do
  guard (span.start ≤ span.next)
  let first ← charIndex? source.toList span.start
  let next ← charIndex? source.toList span.next
  return String.ofList ((source.toList.drop first).take (next - first))

/-- Whether a byte offset is a character boundary of a text. -/
def isBoundary (source : String) (offset : Nat) : Bool :=
  (charIndex? source.toList offset).isSome

/-- Whether a span fits a source: its ends are in order, within the source and
character boundaries. -/
def fits (source : String) (span : Span) : Bool :=
  span.start ≤ span.next && span.next ≤ byteLength source.toList &&
    isBoundary source span.start && isBoundary source span.next

end Text
end GrammarCompiler
