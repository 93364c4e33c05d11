import GrammarCompiler.Text.Join

/-!
# The layout of generated text

Generated text is put together from pieces.  A level of indentation is four
spaces; pieces bring their own line breaks.
-/

namespace GrammarCompiler
namespace Layout

/-- A piece of generated text. -/
inductive Piece where
  /-- Text as it stands. -/
  | raw (text : String)
  /-- Text after some levels of indentation. -/
  | indented (level : Nat) (text : String)
  /-- A line break. -/
  | newline
  deriving DecidableEq

/-- The text of a piece. -/
def Piece.text : Piece → String
  | .raw text => text
  | .indented level text => Text.spaces (4 * level) ++ text
  | .newline => "\n"

/-- The text of some pieces. -/
def render (pieces : List Piece) : String :=
  Text.concat (pieces.map Piece.text)

end Layout
end GrammarCompiler
