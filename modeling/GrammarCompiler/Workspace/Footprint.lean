import GrammarCompiler.Synthesis.Synthesize
import GrammarCompiler.Tree.Path

/-!
# Footprints

The footprint of a pass is the list of nodes whose text or position it reads,
in order.  It depends on the shape of the tree, and for synthesis also on the
analysis, but never on the texts.
-/

namespace GrammarCompiler
namespace Footprint

/-- The rules of a tree with their paths, going down at most as deep as given.
Nothing is looked for inside a rule. -/
def rulesWithin : Nat → Node → List (Path × Node)
  | 0, _ => []
  | depth + 1, node =>
      match node with
      | .rule _ _ _ _ _ => [([], node)]
      | _ =>
          node.children.zipIdx.flatMap fun (child, index) =>
            (rulesWithin depth child).map fun (path, rule) => (index :: path, rule)

/-- The rules of a tree with their paths. -/
def rules (node : Node) : List (Path × Node) :=
  rulesWithin node.size node

/-- Steps of a node that lies at a path. -/
def below (path : Path) (steps : List Touch) : List Touch :=
  path.foldr (fun index steps => steps.map (Touch.under index)) steps

/-! ## Analysis -/

mutual

/-- The steps of walking an expression. -/
def walk : Node → List Touch
  | .identifier _ => [.text []]
  | .call _ _ arguments => .text [0] :: walkArguments 1 arguments
  | .binding _ operand _ => .text [1] :: (walk operand).map (Touch.under 0)
  | .unary _ _ operand => (walk operand).map (Touch.under 0)
  | .condition _ operand _ => (walk operand).map (Touch.under 0)
  | .action _ operand _ => (walk operand).map (Touch.under 0)
  | .sequence _ items => walkAll 0 items
  | .choice _ alternatives => walkAll 0 alternatives
  | .literal _ => []
  | .any _ => []
  | .fail _ _ => []
  | .file _ _ _ => [.halt]
  | .usingDirective _ _ => [.halt]
  | .comment _ => [.halt]
  | .grammar _ _ _ => [.halt]
  | .declaration _ _ _ => [.halt]
  | .genericName _ _ _ => [.halt]
  | .code _ => [.halt]
  | .rule _ _ _ _ _ => [.halt]

/-- The steps of walking expressions, which are children from an index on. -/
def walkAll : Nat → List Node → List Touch
  | _, [] => []
  | index, node :: nodes => (walk node).map (Touch.under index) ++ walkAll (index + 1) nodes

/-- The steps of walking call arguments, which are children from an index
on. -/
def walkArguments : Nat → List Node → List Touch
  | _, [] => []
  | index, node :: nodes =>
      .text [index] ::
        ((if node.isExpression then (walk node).map (Touch.under index) else []) ++
          walkArguments (index + 1) nodes)

end

/-- The steps of walking a rule. -/
def walkRule : Node → List Touch
  | .rule _ _ _ none body => (walk body).map (Touch.under 1)
  | .rule _ _ _ (some params) body =>
      (walk params).map (Touch.under 1) ++ (walk body).map (Touch.under 2)
  | _ => [.halt]

/-- A generic name that gives input and result types. -/
def isTyped : Node → Bool
  | .genericName _ _ [_, _] => true
  | _ => false

/-- The steps of reading a name with its types. -/
def nameAndTypes : Node → List Touch
  | .genericName _ _ [_, _] => [.text [1], .text [2], .text [0]]
  | .genericName _ _ _ => [.text [0]]
  | _ => [.text []]

/-- The steps of reading a declaration. -/
def declaration : Node → List Touch
  | .declaration _ name base? =>
      (nameAndTypes name).map (Touch.under 0) ++
        (match isTyped name, base? with
        | true, none => []
        | true, some _ => [.text [1]]
        | false, none => [.halt]
        | false, some base =>
            (nameAndTypes base).map (Touch.under 1) ++
              if isTyped base then [.text [1]] else [.halt])
  | _ => [.halt]

/-- The steps of walking a grammar. -/
def grammar (node : Node) : List Touch :=
  match node with
  | .grammar _ header body =>
      let rules := body.zipIdx.flatMap fun (item, index) =>
        (rules item).map fun (path, rule) => ((index + 1) :: path, rule)
      (declaration header).map (Touch.under 0) ++
        rules.map (fun (path, _) => .text (path ++ [0])) ++
        rules.flatMap fun (path, rule) => below path (walkRule rule)
  | _ => [.halt]

/-- The steps of reading the directives of a preamble. -/
def imports (preamble : List Node) : List Touch :=
  preamble.zipIdx.flatMap fun (node, index) =>
    match node with
    | .usingDirective _ _ => [.text [index, 0]]
    | _ => []

/-- The footprint of analysis. -/
def ofAnalysis : Node → List Touch
  | .file _ preamble grammars =>
      imports preamble ++ Touch.underEach grammar preamble.length grammars
  | _ => [.halt]

/-! ## Synthesis -/

mutual

/-- The steps of synthesizing an expression. -/
def combinator (analysis : Analysis) : Node → List Touch
  | .literal _ => [.text []]
  | .any _ => []
  | .identifier tag =>
      if (analysis.resolution? tag.id).isSome then [] else [.text [], .halt]
  | .call tag _ arguments =>
      if (analysis.resolution? tag.id).isSome then
        arguments.zipIdx.flatMap fun (node, index) =>
          .text [index + 1] ::
            if (analysis.argument? node.id).isSome then [] else [.halt]
      else [.text [], .halt]
  | .unary _ _ operand => (combinator analysis operand).map (Touch.under 0)
  | .binding _ operand _ => (combinator analysis operand).map (Touch.under 0) ++ [.text [1]]
  | .condition _ operand _ =>
      (combinator analysis operand).map (Touch.under 0) ++ [.text [1], .positions [1]]
  | .action _ operand _ =>
      (combinator analysis operand).map (Touch.under 0) ++ [.text [1], .positions [1]]
  | .sequence _ items => combinators analysis 0 items
  | .choice _ alternatives => combinators analysis 0 alternatives
  | .fail _ _ => [.text [0]]
  | .file _ _ _ => [.halt]
  | .usingDirective _ _ => [.halt]
  | .comment _ => [.halt]
  | .grammar _ _ _ => [.halt]
  | .declaration _ _ _ => [.halt]
  | .genericName _ _ _ => [.halt]
  | .code _ => [.halt]
  | .rule _ _ _ _ _ => [.halt]

/-- The steps of synthesizing expressions, which are children from an index
on. -/
def combinators (analysis : Analysis) : Nat → List Node → List Touch
  | _, [] => []
  | index, node :: nodes =>
      (combinator analysis node).map (Touch.under index) ++
        combinators analysis (index + 1) nodes

end

/-- The steps of synthesizing a rule. -/
def ruleCombinator (analysis : Analysis) : Node → List Touch
  | .rule _ _ _ none body => (combinator analysis body).map (Touch.under 1)
  | .rule _ _ _ (some params) body =>
      (combinator analysis params).map (Touch.under 1) ++
        (combinator analysis body).map (Touch.under 2)
  | _ => [.halt]

/-- The steps of synthesizing a matcher class. -/
def matcherClass (analysis : Analysis) (node : Node) : List Touch :=
  match analysis.grammar? node.id with
  | none => [.halt]
  | some grammar =>
      let rules := (rules node).reverse
      grammar.rules.sets.flatMap fun set =>
        set.alternatives.flatMap fun alternative =>
          match rules.find? (·.2.id == alternative.ruleId) with
          | some (path, rule) => below path (ruleCombinator analysis rule)
          | none => [.halt]

/-- The steps of reading the lines of a preamble. -/
def preambleLines (preamble : List Node) : List Touch :=
  preamble.zipIdx.map fun (node, index) =>
    match node with
    | .usingDirective _ _ => .text [index, 0]
    | _ => .text [index]

/-- The footprint of synthesis. -/
def ofSynthesis (settings : Settings) (analysis : Analysis) (tree : Node) : List Touch :=
  match settings.requireNamespace, tree with
  | .ok _, .file _ preamble grammars =>
      preambleLines preamble ++
        Touch.underEach (matcherClass analysis) preamble.length grammars
  | _, _ => [.halt]

end Footprint
end GrammarCompiler
