/-!
# Quoted text in JSON

A text is written between quotes with a backslash before some characters.
The characters between the quotes are called the lexeme of the text; `escape`
writes it and `unescape?` reads it back.
-/

namespace GrammarCompiler
namespace Json
namespace Quoted

/-- The letter that stands for a character after a backslash, for the
characters that have one and must be escaped. -/
def shortEscape? (c : Char) : Option Char :=
  if c = '"' then some '"'
  else if c = '\\' then some '\\'
  else if c.val = 0x08 then some 'b'
  else if c.val = 0x09 then some 't'
  else if c.val = 0x0A then some 'n'
  else if c.val = 0x0C then some 'f'
  else if c.val = 0x0D then some 'r'
  else none

/-- A control character must not stand in a lexeme as it is. -/
def isControl (c : Char) : Bool :=
  c.val < 0x20

/-- The lower-case hexadecimal digit of a value below sixteen. -/
def hexDigit (value : Nat) : Char :=
  if value < 10 then Char.ofNat (value + 48) else Char.ofNat (value + 87)

/-- The lexeme of one character. -/
def escapeChar (c : Char) : List Char :=
  match shortEscape? c with
  | some letter => ['\\', letter]
  | none =>
      if isControl c then
        ['\\', 'u', '0', '0', hexDigit (c.toNat / 16), hexDigit (c.toNat % 16)]
      else [c]

/-- The lexeme of a text. -/
def escape (chars : List Char) : List Char :=
  chars.flatMap escapeChar

/-- The character that a letter after a backslash stands for. -/
def shortMeaning? (letter : Char) : Option Char :=
  if letter = '"' then some '"'
  else if letter = '\\' then some '\\'
  else if letter = '/' then some '/'
  else if letter = 'b' then some (Char.ofNat 0x08)
  else if letter = 't' then some (Char.ofNat 0x09)
  else if letter = 'n' then some (Char.ofNat 0x0A)
  else if letter = 'f' then some (Char.ofNat 0x0C)
  else if letter = 'r' then some (Char.ofNat 0x0D)
  else none

/-- The value of a hexadecimal digit. -/
def hexValue? (c : Char) : Option Nat :=
  if 48 ≤ c.toNat ∧ c.toNat ≤ 57 then some (c.toNat - 48)
  else if 97 ≤ c.toNat ∧ c.toNat ≤ 102 then some (c.toNat - 87)
  else if 65 ≤ c.toNat ∧ c.toNat ≤ 70 then some (c.toNat - 55)
  else none

/-- The value of four hexadecimal digits. -/
def hexUnit? (a b c d : Char) : Option Nat := do
  let first ← hexValue? a
  let second ← hexValue? b
  let third ← hexValue? c
  let fourth ← hexValue? d
  return ((first * 16 + second) * 16 + third) * 16 + fourth

/-- The first half of a surrogate pair. -/
def isHighSurrogate (unit : Nat) : Bool :=
  0xD800 ≤ unit && unit < 0xDC00

/-- The second half of a surrogate pair. -/
def isLowSurrogate (unit : Nat) : Bool :=
  0xDC00 ≤ unit && unit < 0xE000

/-- The character that a surrogate pair stands for. -/
def pairMeaning (high low : Nat) : Char :=
  Char.ofNat (0x10000 + (high - 0xD800) * 0x400 + (low - 0xDC00))

/-- Read the rest of a lexeme after the characters `read`, which stand in
reverse order. -/
def unescapeOnto (read : List Char) : List Char → Option (List Char)
  | [] => some read.reverse
  | '\\' :: 'u' :: a :: b :: c :: d :: '\\' :: 'u' :: e :: f :: g :: h :: rest =>
      match hexUnit? a b c d with
      | none => none
      | some unit =>
          if isHighSurrogate unit then
            match hexUnit? e f g h with
            | none => none
            | some low =>
                if isLowSurrogate low then unescapeOnto (pairMeaning unit low :: read) rest
                else none
          else if isLowSurrogate unit then none
          else
            unescapeOnto (Char.ofNat unit :: read) ('\\' :: 'u' :: e :: f :: g :: h :: rest)
  | '\\' :: 'u' :: a :: b :: c :: d :: rest =>
      match hexUnit? a b c d with
      | none => none
      | some unit =>
          if isHighSurrogate unit || isLowSurrogate unit then none
          else unescapeOnto (Char.ofNat unit :: read) rest
  | '\\' :: letter :: rest =>
      match shortMeaning? letter with
      | none => none
      | some c => unescapeOnto (c :: read) rest
  | c :: rest => if c = '\\' then none else unescapeOnto (c :: read) rest

/-- The text of a lexeme; none if half of a surrogate pair stands alone. -/
def unescape? (lexeme : List Char) : Option (List Char) :=
  unescapeOnto [] lexeme

end Quoted
end Json
end GrammarCompiler
