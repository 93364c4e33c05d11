import GrammarCompiler.Analysis.Declaration
import GrammarCompiler.Analysis.Definition
import GrammarCompiler.Analysis.RuleTable

/-!
# The analyzer

Analysis has two phases.  First the grammars of a file are walked: rule names
are collected and every definition gets its scope.  Then, with all rule names
known, identifiers and call arguments are classified.  One analyzer may walk
several files.
-/

namespace GrammarCompiler

/-- What an identifier or the name of a call stands for. -/
inductive Resolution where
  /-- A rule; `bypass` asks for the ancestor's rule. -/
  | rule (name : String) (bypass : Bool)
  /-- A variable slot of the calling rule. -/
  | slot (name : String)
  deriving DecidableEq, Inhabited

/-- How an argument is passed to a call. -/
inductive ArgumentKind where
  /-- It names a rule and is passed as a match of its own. -/
  | rule
  /-- It is a variable of the calling rule and is passed on. -/
  | slot
  /-- It is anything else and is converted. -/
  | value
  deriving DecidableEq, Inhabited

/-- A grammar with its declaration and its rules. -/
structure GrammarAnalysis where
  /-- The number of the grammar node. -/
  nodeId : Nat
  declaration : Declaration
  rules : RuleTable
  deriving Inhabited

/-- Everything that synthesis needs to know about a file. -/
structure Analysis where
  ruleNames : NameSet := .empty
  grammars : List GrammarAnalysis := []
  /-- The directives to write ahead of the preamble. -/
  imports : List String := []
  /-- Classified identifiers and calls by node number; a later entry takes the
  place of an earlier one. -/
  resolutions : List (Nat × Resolution) := []
  /-- Classified call arguments by node number; a later entry takes the place
  of an earlier one. -/
  arguments : List (Nat × ArgumentKind) := []
  deriving Inhabited

namespace Analysis

/-- The entry made last for a node number. -/
def lastEntry? (entries : List (Nat × α)) (id : Nat) : Option α :=
  entries.reverse.lookup id

/-- Whether a name is a rule name. -/
def isRule (analysis : Analysis) (name : String) : Bool :=
  analysis.ruleNames.contains name

/-- What an identifier or call stands for. -/
def resolution? (analysis : Analysis) (id : Nat) : Option Resolution :=
  lastEntry? analysis.resolutions id

/-- How a call argument is passed. -/
def argument? (analysis : Analysis) (id : Nat) : Option ArgumentKind :=
  lastEntry? analysis.arguments id

/-- The analysis of a grammar. -/
def grammar? (analysis : Analysis) (id : Nat) : Option GrammarAnalysis :=
  analysis.grammars.find? (·.nodeId == id)

/-- What an identifier stands for, given the rule names. -/
def resolveIdentifier (ruleNames : NameSet) : WrittenName → Resolution
  | .bare name => if ruleNames.contains name then .rule name false else .slot name
  | .qualified name bypass => .rule name bypass

/-- What the name of a call stands for: always a rule, known or not. -/
def resolveCallee (name : WrittenName) : Resolution :=
  .rule name.name name.bypass

/-- How an argument is passed, given the rule names and the scope. -/
def argumentKind (ruleNames : NameSet) (scope : Scope) (text : String) : ArgumentKind :=
  if ruleNames.contains text then .rule
  else if scope.contains text then .slot
  else .value

end Analysis

namespace Scope

/-- The classified identifiers and calls of a scope. -/
def resolutions (scope : Scope) (ruleNames : NameSet) : List (Nat × Resolution) :=
  scope.identifiers.map (fun (id, name) => (id, Analysis.resolveIdentifier ruleNames name)) ++
    scope.callees.map fun (id, name) => (id, Analysis.resolveCallee name)

/-- The classified arguments of a scope. -/
def argumentKinds (scope : Scope) (ruleNames : NameSet) : List (Nat × ArgumentKind) :=
  scope.arguments.map fun (id, text) => (id, Analysis.argumentKind ruleNames scope text)

end Scope

namespace GrammarAnalysis

/-- The scopes of all definitions in the order of the rule table. -/
def scopes (grammar : GrammarAnalysis) : List Scope :=
  grammar.rules.sets.flatMap fun set => set.alternatives.map (·.scope)

/-- Settle the rules, now that the rule names are known. -/
def settle (grammar : GrammarAnalysis) (ruleNames : NameSet) : GrammarAnalysis :=
  { grammar with rules := grammar.rules.settle ruleNames }

end GrammarAnalysis

/-- An analyzer between two files. -/
structure Analyzer where
  /-- The rule names met so far. -/
  ruleNames : NameSet := .empty
  /-- The grammars walked so far, not yet settled. -/
  grammars : List GrammarAnalysis := []
  /-- The directives that the last file needs. -/
  imports : List String := []
  deriving Inhabited

namespace Analyzer

/-- The host modules that every generated file uses. -/
def requiredImports : List String :=
  ["System", "System.Collections.Generic", "System.Linq"]

/-- The modules that a preamble imports. -/
def importedBy (source : String) : List Node → Except Failure (List String)
  | [] => .ok []
  | .usingDirective _ target :: nodes => do
      let name ← target.tag.readTrimmed source
      return name :: (← importedBy source nodes)
  | _ :: nodes => importedBy source nodes

/-- The directives to add for the required modules that a preamble does not
import. -/
def missingImports (imported : List String) : List String :=
  (requiredImports.filter (· ∉ imported)).map fun name => "using " ++ name ++ ";"

/-- The names of definitions. -/
def definitionNames (source : String) (definitions : List Definition) :
    Except Failure (List String) :=
  definitions.mapM fun definition => definition.name.readTrimmed source

/-- The rules of a grammar, given its definitions and their names. -/
def ruleTable (source : String) (definitions : List Definition) (names : List String) :
    Except Failure RuleTable := do
  let scopes ← definitions.mapM (Definition.scope source)
  let alternatives := definitions.zipWith (fun definition scope =>
    { ruleId := definition.id, isOverride := definition.isOverride, scope : Alternative }) scopes
  return RuleTable.ofDefinitions (names.zip alternatives)

/-- The rule names that definitions make known: first their own names, then
the qualified names that can be read in them. -/
def namesMadeKnown (source : String) (definitions : List Definition) (names : List String) :
    List String :=
  names ++ (Mention.readable source (definitions.flatMap (·.mentions))).filterMap
    Occurrence.ruleName?

/-- Walk one grammar.  The rule names that were made known before a failure
stay known. -/
def walkGrammar (source : String) (known : NameSet) :
    Node → NameSet × Except Failure GrammarAnalysis
  | .grammar tag header body =>
      match Declaration.ofNode source header with
      | .error failure => (known, .error failure)
      | .ok declaration =>
          let definitions := Node.definitionsAll body
          match definitionNames source definitions with
          | .error failure => (known, .error failure)
          | .ok names =>
              (known.insertAll (namesMadeKnown source definitions names),
                (ruleTable source definitions names).map fun rules =>
                  { nodeId := tag.id, declaration, rules })
  | node => (known, .error (.violation (.notGrammar node.kind) node.span))

/-- Walk grammars in order up to the first failure. -/
def walkGrammars (source : String) (analyzer : Analyzer) :
    List Node → Analyzer × Option Failure
  | [] => (analyzer, none)
  | node :: nodes =>
      match walkGrammar source analyzer.ruleNames node with
      | (ruleNames, .ok grammar) =>
          walkGrammars source
            { analyzer with ruleNames, grammars := analyzer.grammars ++ [grammar] } nodes
      | (ruleNames, .error failure) => ({ analyzer with ruleNames }, some failure)

/-- Walk the tree of a file.  After a failure the analyzer keeps what it
learnt before. -/
def analyze (source : String) (analyzer : Analyzer) : Node → Analyzer × Option Failure
  | .file _ preamble grammars =>
      match importedBy source preamble with
      | .error failure => (analyzer, some failure)
      | .ok imported =>
          walkGrammars source { analyzer with imports := missingImports imported } grammars
  | node => (analyzer, some (.violation (.rootNotFile node.kind) node.span))

/-- Classify all identifiers and arguments against the rule names. -/
def finish (analyzer : Analyzer) : Analysis :=
  let scopes := analyzer.grammars.flatMap (·.scopes)
  { ruleNames := analyzer.ruleNames
    grammars := analyzer.grammars.map (·.settle analyzer.ruleNames)
    imports := analyzer.imports
    resolutions := scopes.flatMap (·.resolutions analyzer.ruleNames)
    arguments := scopes.flatMap (·.argumentKinds analyzer.ruleNames) }

end Analyzer

/-- Analyze the tree of one file. -/
def analyze (source : String) (tree : Node) : Except Failure Analysis :=
  match ({} : Analyzer).analyze source tree with
  | (analyzer, none) => .ok analyzer.finish
  | (_, some failure) => .error failure

end GrammarCompiler
