import GrammarCompiler.Text.Blank

/-!
# Identifiers as they are written

An identifier without a dot may call a rule or refer to a variable; one with a
dot always calls a rule.  The qualifiers `base.` and `super.` ask for the
ancestor's rule and are not part of its name.
-/

namespace GrammarCompiler

/-- An identifier as it is written. -/
inductive WrittenName where
  /-- Without a dot. -/
  | bare (name : String)
  /-- With a dot; `bypass` asks for the ancestor's rule. -/
  | qualified (name : String) (bypass : Bool)
  deriving DecidableEq, Inhabited

namespace WrittenName

/-- The name of the rule or variable. -/
def name : WrittenName → String
  | .bare name => name
  | .qualified name _ => name

/-- Whether the ancestor's rule is asked for. -/
def bypass : WrittenName → Bool
  | .bare _ => false
  | .qualified _ bypass => bypass

/-- The qualifiers that ask for the ancestor's rule. -/
def ancestorQualifiers : List (List Char) :=
  ["base.".toList, "super.".toList]

/-- What follows a qualifier.  The case of letters is ignored. -/
def afterQualifier? (chars qualifier : List Char) : Option (List Char) :=
  if (chars.take qualifier.length).map Char.toLower = qualifier then
    some (chars.drop qualifier.length)
  else none

/-- The identifier that a text spells. -/
def ofText (text : String) : WrittenName :=
  let chars := Text.trimChars text.toList
  if '.' ∈ chars then
    match ancestorQualifiers.findSome? (afterQualifier? chars) with
    | some rest => .qualified (String.ofList rest) true
    | none => .qualified (String.ofList chars) false
  else .bare (String.ofList chars)

/-- The target of a call as it is written into the generated file. -/
def callTarget (name : String) (bypass : Bool) : String :=
  if bypass then "base." ++ name else name

end WrittenName
end GrammarCompiler
