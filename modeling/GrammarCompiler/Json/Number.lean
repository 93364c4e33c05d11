/-!
# Numbers in JSON

Numbers are kept as they were written.  A natural number of 64 bits is
written with digits only; any number must lie in the range of double
precision to be stored.
-/

namespace GrammarCompiler
namespace Json
namespace Number

/-- The value of a list of digits. -/
def digitsValue (digits : List Char) : Nat :=
  digits.foldl (fun value c => value * 10 + (c.toNat - 48)) 0

/-- The least number that does not fit into 64 bits. -/
def naturalBound : Nat := Nat.pow 2 64

/-- The value of a lexeme that is a natural number of 64 bits. -/
def natural? (lexeme : List Char) : Option Nat :=
  if lexeme.isEmpty = false ∧ lexeme.all Char.isDigit = true ∧
      digitsValue lexeme < naturalBound then
    some (digitsValue lexeme)
  else none

/-- The value of a lexeme that is an integer without fraction and exponent. -/
def integer? (lexeme : List Char) : Option Int :=
  match lexeme with
  | '-' :: digits =>
      if digits.isEmpty = false ∧ digits.all Char.isDigit = true then
        some (-(digitsValue digits : Int))
      else none
  | digits =>
      if digits.isEmpty = false ∧ digits.all Char.isDigit = true then
        some (digitsValue digits)
      else none

/-- The lexeme of a natural number. -/
def ofNat (value : Nat) : List Char :=
  Nat.toDigits 10 value

/-- The parts of a lexeme: the digits of its magnitude without the point, and
the power of ten by which they count. -/
def parts (lexeme : List Char) : List Char × Int :=
  let unsigned := lexeme.dropWhile (· == '-')
  let (whole, rest) := unsigned.span Char.isDigit
  let (fraction, rest) :=
    match rest with
    | '.' :: rest => rest.span Char.isDigit
    | rest => ([], rest)
  let exponent : Int :=
    match rest with
    | _ :: '-' :: digits => -(digitsValue digits : Int)
    | _ :: '+' :: digits => digitsValue digits
    | _ :: digits => digitsValue digits
    | [] => 0
  ((whole ++ fraction).dropWhile (· == '0'), exponent - fraction.length)

/-- The least magnitude that rounds beyond the range of double precision. -/
def rangeBound : Nat := Nat.pow 2 1024 - Nat.pow 2 970

/-- The magnitude of the number lies in the range of double precision.  Only
numbers with 309 digits before the point need to be compared exactly. -/
def inRange (lexeme : List Char) : Bool :=
  let (digits, exponent) := parts lexeme
  let places : Int := digits.length + exponent
  if digits.isEmpty || places ≤ 308 then true
  else if 310 ≤ places then false
  else digitsValue digits * Nat.pow 10 exponent.toNat < rangeBound * Nat.pow 10 (-exponent).toNat

end Number
end Json
end GrammarCompiler
