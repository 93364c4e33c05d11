import GrammarCompiler.Json.Value

/-!
# Writing JSON

Values are written without blanks.  Each function takes the characters that
follow what it writes.
-/

namespace GrammarCompiler
namespace Json

mutual

/-- Write a value before some characters. -/
def write : Json → List Char → List Char
  | .null, rest => 'n' :: 'u' :: 'l' :: 'l' :: rest
  | .bool true, rest => 't' :: 'r' :: 'u' :: 'e' :: rest
  | .bool false, rest => 'f' :: 'a' :: 'l' :: 's' :: 'e' :: rest
  | .number lexeme, rest => lexeme ++ rest
  | .string lexeme, rest => '"' :: (lexeme ++ '"' :: rest)
  | .array elements, rest => '[' :: writeElements elements (']' :: rest)
  | .object members, rest => '{' :: writeMembers members ('}' :: rest)

/-- Write values with commas between them. -/
def writeElements : List Json → List Char → List Char
  | [], rest => rest
  | [element], rest => write element rest
  | element :: elements, rest => write element (',' :: writeElements elements rest)

/-- Write members with commas between them. -/
def writeMembers : List (List Char × Json) → List Char → List Char
  | [], rest => rest
  | [(key, value)], rest => '"' :: (key ++ '"' :: ':' :: write value rest)
  | (key, value) :: members, rest =>
      '"' :: (key ++ '"' :: ':' :: write value (',' :: writeMembers members rest))

end

/-- The compact text of a value. -/
def text (json : Json) : String :=
  String.ofList (write json [])

end Json
end GrammarCompiler
