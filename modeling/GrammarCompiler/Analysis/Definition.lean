import GrammarCompiler.Analysis.Scope
import GrammarCompiler.Failure

/-!
# Definitions and what they mention

The walk of a rule definition meets identifiers, calls with their arguments,
and bindings.  It goes through operands, members of groups and those call
arguments that are expressions.  `mentions` lists what the walk meets;
reading the texts turns mentions into occurrences.
-/

namespace GrammarCompiler

/-- What the walk of a definition meets. -/
inductive Mention where
  /-- An identifier used as an expression. -/
  | identifier (tag : Tag)
  /-- A call: its number and the tag of its name. -/
  | callee (id : Nat) (name : Tag)
  /-- An argument of a call. -/
  | argument (tag : Tag)
  /-- The variable of a binding. -/
  | binding (captured : Tag)
  /-- A node that is not an expression. -/
  | misplaced (kind : Kind) (tag : Tag)
  deriving DecidableEq

namespace Mention

/-- Read the text of a mention. -/
def read (source : String) : Mention → Except Failure Occurrence
  | .identifier tag => (tag.read source).map fun text => .identifier tag.id (.ofText text)
  | .callee id name => (name.read source).map fun text => .callee id (.ofText text)
  | .argument tag => (tag.readTrimmed source).map (.argument tag.id)
  | .binding captured => (captured.readTrimmed source).map .binding
  | .misplaced kind tag => .error (.violation (.misplaced kind) tag.span)

/-- The occurrences that can be read before the first failure. -/
def readable (source : String) : List Mention → List Occurrence
  | [] => []
  | mention :: mentions =>
      match mention.read source with
      | .ok occurrence => occurrence :: readable source mentions
      | .error _ => []

end Mention

namespace Node

mutual

/-- What the walk of an expression meets. -/
def mentions : Node → List Mention
  | identifier tag => [.identifier tag]
  | call tag name arguments => .callee tag.id name.tag :: argumentMentions arguments
  | binding _ operand captured => .binding captured.tag :: operand.mentions
  | unary _ _ operand => operand.mentions
  | condition _ operand _ => operand.mentions
  | action _ operand _ => operand.mentions
  | sequence _ items => mentionsAll items
  | choice _ alternatives => mentionsAll alternatives
  | literal _ => []
  | any _ => []
  | fail _ _ => []
  | file tag _ _ => [.misplaced .file tag]
  | usingDirective tag _ => [.misplaced .usingDirective tag]
  | comment tag => [.misplaced .comment tag]
  | grammar tag _ _ => [.misplaced .grammar tag]
  | declaration tag _ _ => [.misplaced .declaration tag]
  | genericName tag _ _ => [.misplaced .genericName tag]
  | code tag => [.misplaced .code tag]
  | rule tag _ _ _ _ => [.misplaced .rule tag]

/-- What the walks of some expressions meet, one after the other. -/
def mentionsAll : List Node → List Mention
  | [] => []
  | node :: nodes => node.mentions ++ mentionsAll nodes

/-- What the walk of call arguments meets: each argument, and what is met in it
if it is an expression. -/
def argumentMentions : List Node → List Mention
  | [] => []
  | node :: nodes =>
      .argument node.tag ::
        ((if node.isExpression then node.mentions else []) ++ argumentMentions nodes)

end

@[simp] theorem mentionsAll_eq_flatMap (nodes : List Node) :
    mentionsAll nodes = nodes.flatMap mentions := by
  induction nodes with
  | nil => rfl
  | cons node nodes inductionHypothesis => simp [mentionsAll, inductionHypothesis]

@[simp] theorem argumentMentions_eq_flatMap (nodes : List Node) :
    argumentMentions nodes = nodes.flatMap fun node =>
      .argument node.tag :: (if node.isExpression then node.mentions else []) := by
  induction nodes with
  | nil => rfl
  | cons node nodes inductionHypothesis => simp [argumentMentions, inductionHypothesis]

end Node

/-- A rule definition, as far as analysis is concerned. -/
structure Definition where
  /-- The number of the rule node. -/
  id : Nat
  isOverride : Bool
  /-- The tag of the rule's name. -/
  name : Tag
  /-- What its parameters and its body mention. -/
  mentions : List Mention
  deriving DecidableEq

namespace Definition

/-- The scope of a definition. -/
def scope (source : String) (definition : Definition) : Except Failure Scope :=
  (definition.mentions.mapM (Mention.read source)).map Scope.ofOccurrences

end Definition

namespace Node

mutual

/-- The rule definitions of a tree in preorder.  Nothing is looked for inside a
rule. -/
def definitions : Node → List Definition
  | rule tag isOverride name none body =>
      [{ id := tag.id, isOverride, name := name.tag, mentions := body.mentions }]
  | rule tag isOverride name (some params) body =>
      [{ id := tag.id, isOverride, name := name.tag
         mentions := params.mentions ++ body.mentions }]
  | file _ preamble grammars => definitionsAll preamble ++ definitionsAll grammars
  | usingDirective _ target => target.definitions
  | grammar _ header body => header.definitions ++ definitionsAll body
  | declaration _ name none => name.definitions
  | declaration _ name (some base) => name.definitions ++ base.definitions
  | genericName _ name parameters => name.definitions ++ definitionsAll parameters
  | call _ name arguments => name.definitions ++ definitionsAll arguments
  | unary _ _ operand => operand.definitions
  | binding _ operand captured => operand.definitions ++ captured.definitions
  | condition _ operand test => operand.definitions ++ test.definitions
  | action _ operand block => operand.definitions ++ block.definitions
  | sequence _ items => definitionsAll items
  | choice _ alternatives => definitionsAll alternatives
  | fail _ message => message.definitions
  | comment _ => []
  | code _ => []
  | literal _ => []
  | identifier _ => []
  | any _ => []

/-- The rule definitions of some trees, one tree after the other. -/
def definitionsAll : List Node → List Definition
  | [] => []
  | node :: nodes => node.definitions ++ definitionsAll nodes

end

@[simp] theorem definitionsAll_eq_flatMap (nodes : List Node) :
    definitionsAll nodes = nodes.flatMap definitions := by
  induction nodes with
  | nil => rfl
  | cons node nodes inductionHypothesis => simp [definitionsAll, inductionHypothesis]

end Node
end GrammarCompiler
