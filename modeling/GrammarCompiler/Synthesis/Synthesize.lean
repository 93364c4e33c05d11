import GrammarCompiler.Analysis.Analyzer
import GrammarCompiler.Synthesis.ParserFile
import GrammarCompiler.Tree.Flatten

/-!
# Synthesis

An analyzed tree becomes a generated file.  Synthesis looks identifiers and
arguments up by node number and classifies nothing itself; what it does not
find is a breach.
-/

namespace GrammarCompiler
namespace Synthesis

/-- What an identifier or a call stands for. -/
def resolve (source : String) (analysis : Analysis) (tag : Tag) : Except Failure Resolution :=
  match analysis.resolution? tag.id with
  | some resolution => .ok resolution
  | none => do
      let name ← tag.readTrimmed source
      throw (.breach (.unclassifiedIdentifier name tag.span.start))

/-- An argument of a call. -/
def callArgument (source : String) (analysis : Analysis) (tag : Tag) :
    Except Failure CallArgument := do
  let text ← tag.readTrimmed source
  match analysis.argument? tag.id with
  | some .rule => return .rule text
  | some .slot => return .slot text
  | some .value => return .value text
  | none => throw (.breach (.unclassifiedArgument text tag.span.start))

/-- A literal without the braces around it, if it has both. -/
def literalSnippet (text : String) : String :=
  match text.toList with
  | '{' :: inner =>
      match inner.reverse with
      | '}' :: reversed => String.ofList reversed.reverse
      | _ => text
  | _ => text

/-- The combinator of an identifier. -/
def identifierCombinator : Resolution → Combinator
  | .rule name bypass => .call (WrittenName.callTarget name bypass) []
  | .slot name => .reference name

/-- The target of a call. -/
def callTarget : Resolution → String
  | .rule name bypass => WrittenName.callTarget name bypass
  | .slot name => name

/-- Host code with its place. -/
def hostCode (source : String) (tag : Tag) : Except Failure HostCode := do
  let text ← tag.read source
  return { text, line := (tag.position source).1, column := (tag.position source).2 }

/-- A node that is not an expression. -/
def misplaced (kind : Kind) (tag : Tag) : Except Failure Combinator :=
  .error (.breach (.misplaced kind tag.span.start))

mutual

/-- The combinator of an expression.  A group with a single member is that
member. -/
def combinator (source : String) (analysis : Analysis) : Node → Except Failure Combinator
  | .literal tag => do return .literal (literalSnippet (← tag.read source))
  | .any _ => .ok .any
  | .identifier tag => do return identifierCombinator (← resolve source analysis tag)
  | .call tag _ arguments => do
      let resolution ← resolve source analysis tag
      let arguments ← arguments.mapM fun node => callArgument source analysis node.tag
      return .call (callTarget resolution) arguments
  | .unary _ operator operand => do
      return .unary operator (← combinator source analysis operand)
  | .binding _ operand captured => do
      let operand ← combinator source analysis operand
      return .capture operand (← captured.tag.readTrimmed source)
  | .condition _ operand test => do
      let operand ← combinator source analysis operand
      return .condition operand (← hostCode source test.tag)
  | .action _ operand block => do
      let operand ← combinator source analysis operand
      return .action operand (← hostCode source block.tag)
  | .sequence _ [item] => combinator source analysis item
  | .sequence _ items => do return .sequence (← combinators source analysis items)
  | .choice _ [alternative] => combinator source analysis alternative
  | .choice _ alternatives => do return .choice (← combinators source analysis alternatives)
  | .fail _ message => do return .fail (← message.tag.read source)
  | .file tag _ _ => misplaced .file tag
  | .usingDirective tag _ => misplaced .usingDirective tag
  | .comment tag => misplaced .comment tag
  | .grammar tag _ _ => misplaced .grammar tag
  | .declaration tag _ _ => misplaced .declaration tag
  | .genericName tag _ _ => misplaced .genericName tag
  | .code tag => misplaced .code tag
  | .rule tag _ _ _ _ => misplaced .rule tag

/-- The combinators of some expressions. -/
def combinators (source : String) (analysis : Analysis) :
    List Node → Except Failure (List Combinator)
  | [] => .ok []
  | node :: nodes => do
      let first ← combinator source analysis node
      return first :: (← combinators source analysis nodes)

end

@[simp] theorem combinators_eq_mapM (source : String) (analysis : Analysis)
    (nodes : List Node) :
    combinators source analysis nodes = nodes.mapM (combinator source analysis) := by
  induction nodes with
  | nil => rfl
  | cons node nodes inductionHypothesis => simp [combinators, inductionHypothesis]

/-- A rule of the tree, as far as synthesis is concerned. -/
structure RuleNode where
  /-- The number of the rule node. -/
  id : Nat
  params? : Option Node
  body : Node
  deriving Inhabited

mutual

/-- The rules of a tree in preorder.  Nothing is looked for inside a rule. -/
def ruleNodes : Node → List RuleNode
  | .rule tag _ _ params? body => [{ id := tag.id, params?, body }]
  | .file _ preamble grammars => ruleNodesAll preamble ++ ruleNodesAll grammars
  | .usingDirective _ target => ruleNodes target
  | .grammar _ header body => ruleNodes header ++ ruleNodesAll body
  | .declaration _ name none => ruleNodes name
  | .declaration _ name (some base) => ruleNodes name ++ ruleNodes base
  | .genericName _ name parameters => ruleNodes name ++ ruleNodesAll parameters
  | .call _ name arguments => ruleNodes name ++ ruleNodesAll arguments
  | .unary _ _ operand => ruleNodes operand
  | .binding _ operand captured => ruleNodes operand ++ ruleNodes captured
  | .condition _ operand test => ruleNodes operand ++ ruleNodes test
  | .action _ operand block => ruleNodes operand ++ ruleNodes block
  | .sequence _ items => ruleNodesAll items
  | .choice _ alternatives => ruleNodesAll alternatives
  | .fail _ message => ruleNodes message
  | .comment _ => []
  | .code _ => []
  | .literal _ => []
  | .identifier _ => []
  | .any _ => []

/-- The rules of some trees, one tree after the other. -/
def ruleNodesAll : List Node → List RuleNode
  | [] => []
  | node :: nodes => ruleNodes node ++ ruleNodesAll nodes

end

@[simp] theorem ruleNodesAll_eq_flatMap (nodes : List Node) :
    ruleNodesAll nodes = nodes.flatMap ruleNodes := by
  induction nodes with
  | nil => rfl
  | cons node nodes inductionHypothesis => simp [ruleNodesAll, inductionHypothesis]

/-- The combinator of a rule; parameters are matched first. -/
def ruleCombinator (source : String) (analysis : Analysis) (rule : RuleNode) :
    Except Failure Combinator :=
  match rule.params? with
  | some params => do
      let params ← combinator source analysis params
      return .parameters params (← combinator source analysis rule.body)
  | none => combinator source analysis rule.body

/-- The rule with a given number; of several, the last. -/
def ruleNode? (rules : List RuleNode) (id : Nat) : Option RuleNode :=
  rules.reverse.find? (·.id == id)

/-- The blocks of definitions, which are counted from a given index. -/
def blocks (source : String) (analysis : Analysis) (rules : List RuleNode) (name : String) :
    Nat → List Alternative → Except Failure (List DefinitionBlock)
  | _, [] => .ok []
  | index, alternative :: alternatives => do
      match ruleNode? rules alternative.ruleId with
      | none => throw (.breach (.definitionMissing index name))
      | some rule =>
          let combinator ← ruleCombinator source analysis rule
          return { slots := alternative.scope.slots, combinator } ::
            (← blocks source analysis rules name (index + 1) alternatives)

/-- The matcher function of a rule. -/
def matcherFunction (source : String) (analysis : Analysis) (rules : List RuleNode)
    (set : AlternativeSet) : Except Failure MatcherFunction := do
  let blocks ← blocks source analysis rules set.name 0 set.alternatives
  if blocks.isEmpty then throw (.breach (.noDefinitions set.name))
  return { name := set.name, isOverride := set.isOverride, isCached := set.isCacheable, blocks }

/-- The matcher class of a grammar. -/
def matcherClass (source : String) (analysis : Analysis) (node : Node) :
    Except Failure MatcherClass :=
  match analysis.grammar? node.id with
  | none => .error (.breach (.grammarNotAnalyzed node.span.start))
  | some grammar => do
      let functions ← grammar.rules.sets.mapM
        (matcherFunction source analysis (ruleNodes node))
      return { declaration := grammar.declaration, functions }

/-- The line of a member of the preamble. -/
def preambleLine (source : String) : Node → Except Failure String
  | .usingDirective _ target => do
      return "using " ++ (← target.tag.readTrimmed source) ++ ";"
  | node => node.tag.read source

/-- The generated file of an analyzed tree. -/
def parserFile (settings : Settings) (analysis : Analysis) (tree : Node) :
    Except Failure ParserFile := do
  let namespaceName ← settings.requireNamespace
  match tree with
  | .file _ preamble grammars =>
      let preamble ← preamble.mapM (preambleLine settings.source)
      let classes ← grammars.mapM (matcherClass settings.source analysis)
      return { grammarFile := settings.file, namespaceName, time := settings.time
               mode := settings.mode, imports := analysis.imports, preamble, classes }
  | node => throw (.breach (.rootNotFile node.kind))

end Synthesis

/-- The text that is generated for an analyzed tree. -/
def generate (settings : Settings) (analysis : Analysis) (tree : Node) :
    Except Failure String :=
  (Synthesis.parserFile settings analysis tree).map ParserFile.text

/-- Analyze, flatten and generate. -/
def compile (settings : Settings) (tree : Node) : Except Failure String := do
  let analysis ← analyze settings.source tree
  generate settings analysis tree.optimize

end GrammarCompiler
