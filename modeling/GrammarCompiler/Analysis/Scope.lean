import GrammarCompiler.Analysis.WrittenName
import GrammarCompiler.NameSet

/-!
# The scope of a rule definition

A scope collects the names that occur in one definition of a rule.  Once all
rule names of the file are known, the names that need a variable slot are
known too.
-/

namespace GrammarCompiler

/-- What occurs in a definition, in the order in which it is met. -/
inductive Occurrence where
  /-- An identifier used as an expression. -/
  | identifier (id : Nat) (name : WrittenName)
  /-- The name of a call with an argument list. -/
  | callee (id : Nat) (name : WrittenName)
  /-- An argument of a call. -/
  | argument (id : Nat) (text : String)
  /-- The variable in which a match is kept. -/
  | binding (name : String)
  deriving DecidableEq

namespace Occurrence

/-- The rule name that an occurrence makes known: qualified names always call
rules. -/
def ruleName? : Occurrence → Option String
  | .identifier _ (.qualified name _) => some name
  | .callee _ (.qualified name _) => some name
  | _ => none

end Occurrence

/-- The names that occur in one definition of a rule. -/
structure Scope where
  /-- Bare identifiers and bound names in first-seen order. -/
  names : NameSet := .empty
  /-- Bound names in first-seen order. -/
  bound : NameSet := .empty
  /-- The variables that each call of the rule declares; empty until the rule
  names are known. -/
  slots : List String := []
  /-- Identifiers by node number. -/
  identifiers : List (Nat × WrittenName) := []
  /-- Names of calls by node number. -/
  callees : List (Nat × WrittenName) := []
  /-- Texts of call arguments by node number. -/
  arguments : List (Nat × String) := []
  deriving Inhabited

namespace Scope

/-- Add a bare identifier. -/
def addReference (scope : Scope) (name : String) : Scope :=
  { scope with names := scope.names.insert name }

/-- Add a bound name. -/
def addBinding (scope : Scope) (name : String) : Scope :=
  { scope with
    names := scope.names.insert name
    bound := scope.bound.insert name }

/-- Whether a name is a bare identifier or a bound name of the definition. -/
def contains (scope : Scope) (name : String) : Bool :=
  scope.names.contains name

/-- Whether the definition binds a name. -/
def hasBindings (scope : Scope) : Bool :=
  !scope.bound.isEmpty

/-- Add an occurrence. -/
def record (scope : Scope) : Occurrence → Scope
  | .identifier id (.bare name) =>
      { scope.addReference name with identifiers := scope.identifiers ++ [(id, .bare name)] }
  | .identifier id name => { scope with identifiers := scope.identifiers ++ [(id, name)] }
  | .callee id name => { scope with callees := scope.callees ++ [(id, name)] }
  | .argument id text => { scope with arguments := scope.arguments ++ [(id, text)] }
  | .binding name => scope.addBinding name

/-- The scope of a definition. -/
def ofOccurrences (occurrences : List Occurrence) : Scope :=
  occurrences.foldl record {}

/-- Whether a variable needs a slot: it is bound, or it names no rule. -/
def needsSlot (scope : Scope) (ruleNames : NameSet) (name : String) : Bool :=
  scope.bound.contains name || !ruleNames.contains name

/-- Settle the slots, now that the rule names are known. -/
def settle (scope : Scope) (ruleNames : NameSet) : Scope :=
  { scope with slots := scope.names.toList.filter (scope.needsSlot ruleNames) }

end Scope
end GrammarCompiler
