/-!
# Searching and cutting a text
-/

namespace GrammarCompiler
namespace Text

/-- Whether the characters of `part` stand together somewhere in a text. -/
def occursIn (part : List Char) : List Char → Bool
  | [] => part.isEmpty
  | c :: chars => part.isPrefixOf (c :: chars) || occursIn part chars

/-- Whether `part` stands somewhere in a text. -/
def contains (text part : String) : Bool :=
  occursIn part.toList text.toList

/-- The parts of a text between the separators, in order. -/
def splitChars (separator : Char) : List Char → List (List Char)
  | [] => [[]]
  | c :: chars =>
      if c = separator then [] :: splitChars separator chars
      else
        match splitChars separator chars with
        | [] => [[c]]
        | part :: parts => (c :: part) :: parts

/-- The parts of a text between the separators, in order. -/
def split (separator : Char) (text : String) : List String :=
  (splitChars separator text.toList).map String.ofList

end Text
end GrammarCompiler
