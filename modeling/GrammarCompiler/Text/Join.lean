/-!
# Joining texts
-/

namespace GrammarCompiler
namespace Text

/-- The texts one after the other, with a separator between them. -/
def joinWith (separator : String) : List String → String
  | [] => ""
  | [text] => text
  | text :: texts => text ++ separator ++ joinWith separator texts

/-- The texts one after the other. -/
def concat : List String → String
  | [] => ""
  | text :: texts => text ++ concat texts

/-- A number of spaces. -/
def spaces (count : Nat) : String :=
  String.ofList (List.replicate count ' ')

end Text
end GrammarCompiler
