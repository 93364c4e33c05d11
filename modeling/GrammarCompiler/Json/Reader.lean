import GrammarCompiler.Json.Value

/-!
# Reading JSON

A reader for the JSON grammar.  Every part is read from the front of a list of
characters and returned with the characters after it.  Values nest, so the
readers of values, elements and members take the number of steps they may go
down; `parse?` allows more steps than a text of its length can need.
-/

namespace GrammarCompiler
namespace Json

/-- The blanks allowed between the parts of a text. -/
def isBlank (c : Char) : Bool :=
  c = ' ' || c = '\t' || c = '\n' || c = '\r'

/-- Drop leading blanks. -/
def skipBlanks (chars : List Char) : List Char :=
  chars.dropWhile isBlank

/-- The letters that may follow a backslash. -/
def isEscapeLetter (c : Char) : Bool :=
  (Quoted.shortMeaning? c).isSome

/-- A hexadecimal digit. -/
def isHexDigit (c : Char) : Bool :=
  (Quoted.hexValue? c).isSome

/-- Read a lexeme up to its closing quote, after the characters `read`, which
stand in reverse order. -/
def readLexeme (read : List Char) : List Char → Option (List Char × List Char)
  | [] => none
  | '"' :: rest => some (read.reverse, rest)
  | '\\' :: 'u' :: a :: b :: c :: d :: rest =>
      if isHexDigit a && isHexDigit b && isHexDigit c && isHexDigit d then
        readLexeme (d :: c :: b :: a :: 'u' :: '\\' :: read) rest
      else none
  | '\\' :: letter :: rest =>
      if isEscapeLetter letter then readLexeme (letter :: '\\' :: read) rest else none
  | c :: rest =>
      if Quoted.isControl c || c = '\\' then none else readLexeme (c :: read) rest

/-- Read at least one digit. -/
def readDigits (chars : List Char) : Option (List Char × List Char) :=
  match chars.span Char.isDigit with
  | ([], _) => none
  | (digits, rest) => some (digits, rest)

/-- Read the digits before the point: a zero stands alone. -/
def readWhole : List Char → Option (List Char × List Char)
  | '0' :: rest =>
      match rest with
      | c :: _ => if c.isDigit then none else some (['0'], rest)
      | [] => some (['0'], [])
  | chars => readDigits chars

/-- Read a point and the digits after it, if there is a point. -/
def readFraction : List Char → Option (List Char × List Char)
  | '.' :: rest => (readDigits rest).map fun (digits, rest) => ('.' :: digits, rest)
  | chars => some ([], chars)

/-- Read an exponent, if there is one. -/
def readExponent : List Char → Option (List Char × List Char)
  | [] => some ([], [])
  | mark :: chars =>
      if mark = 'e' ∨ mark = 'E' then
        match chars with
        | '+' :: rest => (readDigits rest).map fun (digits, rest) => (mark :: '+' :: digits, rest)
        | '-' :: rest => (readDigits rest).map fun (digits, rest) => (mark :: '-' :: digits, rest)
        | rest => (readDigits rest).map fun (digits, rest) => (mark :: digits, rest)
      else some ([], mark :: chars)

/-- Read a number without a sign. -/
def readUnsigned (chars : List Char) : Option (List Char × List Char) := do
  let (whole, rest) ← readWhole chars
  let (fraction, rest) ← readFraction rest
  let (exponent, rest) ← readExponent rest
  return (whole ++ fraction ++ exponent, rest)

/-- Read a number. -/
def readNumber : List Char → Option (List Char × List Char)
  | '-' :: rest => (readUnsigned rest).map fun (lexeme, rest) => ('-' :: lexeme, rest)
  | chars => readUnsigned chars

mutual

/-- Read a value, going down at most the given number of steps. -/
def readValue : Nat → List Char → Option (Json × List Char)
  | 0, _ => none
  | steps + 1, chars =>
      match skipBlanks chars with
      | 'n' :: 'u' :: 'l' :: 'l' :: rest => some (.null, rest)
      | 't' :: 'r' :: 'u' :: 'e' :: rest => some (.bool true, rest)
      | 'f' :: 'a' :: 'l' :: 's' :: 'e' :: rest => some (.bool false, rest)
      | '"' :: rest => (readLexeme [] rest).map fun (lexeme, rest) => (.string lexeme, rest)
      | '[' :: rest =>
          match skipBlanks rest with
          | ']' :: rest => some (.array [], rest)
          | rest =>
              (readElements steps rest).map fun (elements, rest) => (.array elements, rest)
      | '{' :: rest =>
          match skipBlanks rest with
          | '}' :: rest => some (.object [], rest)
          | rest =>
              (readMembers steps rest).map fun (members, rest) => (.object members, rest)
      | chars => (readNumber chars).map fun (lexeme, rest) => (.number lexeme, rest)

/-- Read the elements of an array up to its closing bracket. -/
def readElements : Nat → List Char → Option (List Json × List Char)
  | 0, _ => none
  | steps + 1, chars => do
      let (element, rest) ← readValue steps chars
      match skipBlanks rest with
      | ',' :: rest =>
          let (elements, rest) ← readElements steps rest
          return (element :: elements, rest)
      | ']' :: rest => return ([element], rest)
      | _ => none

/-- Read the members of an object up to its closing brace. -/
def readMembers : Nat → List Char → Option (List (List Char × Json) × List Char)
  | 0, _ => none
  | steps + 1, chars => do
      let '"' :: rest := skipBlanks chars | none
      let (key, rest) ← readLexeme [] rest
      let ':' :: rest := skipBlanks rest | none
      let (value, rest) ← readValue steps rest
      match skipBlanks rest with
      | ',' :: rest =>
          let (members, rest) ← readMembers steps rest
          return ((key, value) :: members, rest)
      | '}' :: rest => return ([(key, value)], rest)
      | _ => none

end

/-- The value that a text holds, with nothing but blanks around it. -/
def parse? (text : String) : Option Json := do
  let chars := text.toList
  let (json, rest) ← readValue (2 * chars.length + 2) chars
  guard (skipBlanks rest).isEmpty
  return json

end Json
end GrammarCompiler
