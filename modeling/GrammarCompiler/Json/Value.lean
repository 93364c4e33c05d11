import GrammarCompiler.Json.Number
import GrammarCompiler.Json.Quoted

/-!
# JSON values

A value keeps the lexemes of its texts and numbers and the order of its
members, repeated keys included, so nothing of its text is lost but blanks.
-/

namespace GrammarCompiler

/-- A JSON value. -/
inductive Json where
  | null
  | bool (value : Bool)
  /-- A number, as it was written. -/
  | number (lexeme : List Char)
  /-- A text, as it was written between its quotes. -/
  | string (lexeme : List Char)
  | array (elements : List Json)
  /-- The members in order, each with the lexeme of its key. -/
  | object (members : List (List Char × Json))
  deriving Inhabited

namespace Json

/-- The value of a text. -/
def ofString (text : String) : Json :=
  .string (Quoted.escape text.toList)

/-- The value of a natural number. -/
def ofNat (value : Nat) : Json :=
  .number (Number.ofNat value)

/-- An object with the given keys. -/
def ofMembers (members : List (String × Json)) : Json :=
  .object (members.map fun (key, value) => (Quoted.escape key.toList, value))

/-- The text that a lexeme stands for. -/
def decode? (lexeme : List Char) : Option String :=
  (Quoted.unescape? lexeme).map String.ofList

mutual

/-- The number of arrays and objects around the innermost value. -/
def depth : Json → Nat
  | .null | .bool _ | .number _ | .string _ => 0
  | .array elements => elementsDepth elements + 1
  | .object members => membersDepth members + 1

/-- The greatest depth of some values. -/
def elementsDepth : List Json → Nat
  | [] => 0
  | element :: elements => max element.depth (elementsDepth elements)

/-- The greatest depth of the values of some members. -/
def membersDepth : List (List Char × Json) → Nat
  | [] => 0
  | (_, value) :: members => max value.depth (membersDepth members)

end

mutual

/-- Every text can be decoded and every number lies in range. -/
def isStorable : Json → Bool
  | .null | .bool _ => true
  | .number lexeme => Number.inRange lexeme
  | .string lexeme => (Quoted.unescape? lexeme).isSome
  | .array elements => elementsStorable elements
  | .object members => membersStorable members

/-- Every one of some values is storable. -/
def elementsStorable : List Json → Bool
  | [] => true
  | element :: elements => element.isStorable && elementsStorable elements

/-- Every one of some members is storable, and so is its key. -/
def membersStorable : List (List Char × Json) → Bool
  | [] => true
  | (key, value) :: members =>
      (Quoted.unescape? key).isSome && value.isStorable && membersStorable members

end

end Json
end GrammarCompiler
