import GrammarCompiler.Analysis.Scope

/-!
# Rule tables

The definitions of a grammar, grouped by rule name.  Names stand in the order
of their first definition, the definitions of a name in their own order.
-/

namespace GrammarCompiler

/-- One definition of a rule. -/
structure Alternative where
  /-- The number of the rule node. -/
  ruleId : Nat
  isOverride : Bool
  scope : Scope
  deriving Inhabited

/-- All definitions of one rule. -/
structure AlternativeSet where
  name : String
  alternatives : List Alternative := []
  /-- Whether the combinator may be built once and shared by all calls; false
  until the rule names are known. -/
  isCacheable : Bool := false
  deriving Inhabited

namespace AlternativeSet

/-- One overriding definition makes the rule overriding. -/
def isOverride (set : AlternativeSet) : Bool :=
  set.alternatives.any (·.isOverride)

/-- Some definitions are overriding and some are not. -/
def isMixed (set : AlternativeSet) : Bool :=
  set.isOverride && set.alternatives.any fun alternative => !alternative.isOverride

/-- Settle the slots of the definitions and whether the rule is cacheable. -/
def settle (set : AlternativeSet) (ruleNames : NameSet) : AlternativeSet :=
  let alternatives := set.alternatives.map fun alternative =>
    { alternative with scope := alternative.scope.settle ruleNames }
  { set with
    alternatives
    isCacheable := alternatives.all fun alternative =>
      !alternative.scope.hasBindings && alternative.scope.slots.isEmpty }

end AlternativeSet

/-- The definitions of a grammar, grouped by name. -/
structure RuleTable where
  sets : List AlternativeSet := []
  deriving Inhabited

namespace RuleTable

/-- Add a definition to the sets. -/
def addTo (name : String) (alternative : Alternative) :
    List AlternativeSet → List AlternativeSet
  | [] => [{ name, alternatives := [alternative] }]
  | set :: sets =>
      if set.name = name then
        { set with alternatives := set.alternatives ++ [alternative] } :: sets
      else set :: addTo name alternative sets

/-- Add a definition of a rule. -/
def add (table : RuleTable) (name : String) (alternative : Alternative) : RuleTable :=
  { sets := addTo name alternative table.sets }

/-- The definitions of a rule. -/
def get? (table : RuleTable) (name : String) : Option AlternativeSet :=
  table.sets.find? (·.name == name)

/-- The number of rule names. -/
def size (table : RuleTable) : Nat :=
  table.sets.length

/-- No rule is defined. -/
def isEmpty (table : RuleTable) : Bool :=
  table.sets.isEmpty

/-- The number of definitions. -/
def definitionCount (table : RuleTable) : Nat :=
  (table.sets.flatMap (·.alternatives)).length

/-- The table of named definitions. -/
def ofDefinitions (definitions : List (String × Alternative)) : RuleTable :=
  definitions.foldl (fun table (name, alternative) => table.add name alternative) {}

/-- Settle all sets, now that the rule names are known. -/
def settle (table : RuleTable) (ruleNames : NameSet) : RuleTable :=
  { sets := table.sets.map (·.settle ruleNames) }

end RuleTable
end GrammarCompiler
