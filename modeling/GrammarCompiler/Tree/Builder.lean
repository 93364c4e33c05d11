import GrammarCompiler.Tree.Node

/-!
# Building trees step by step

A front end builds a tree from the leaves up: each step takes its children
from the top of a stack and puts a new node there.
-/

namespace GrammarCompiler
namespace Builder

/-- What a step makes. -/
inductive Shape where
  | comment
  | code
  | literal
  | identifier
  | any
  | usingDirective
  | fail
  | unary (operator : UnaryOperator)
  | binding
  | condition
  | action
  | declaration (hasBase : Bool)
  | rule (isOverride hasParams : Bool)
  | genericName (parameters : Nat)
  | call (arguments : Nat)
  | grammar (items : Nat)
  | sequence (items : Nat)
  | choice (alternatives : Nat)
  | file (preamble grammars : Nat)
  deriving DecidableEq

namespace Shape

/-- The number of children that a step takes from the stack. -/
def arity : Shape → Nat
  | comment | code | literal | identifier | any => 0
  | usingDirective | fail | unary _ => 1
  | binding | condition | action => 2
  | declaration hasBase => if hasBase then 2 else 1
  | rule _ hasParams => if hasParams then 3 else 2
  | genericName count | call count | grammar count => count + 1
  | sequence count | choice count => count
  | file preamble grammars => preamble + grammars

/-- The node around its children, which stand in the order in which they were
built. -/
def node? (tag : Tag) : Shape → List Node → Option Node
  | comment, [] => some (.comment tag)
  | code, [] => some (.code tag)
  | literal, [] => some (.literal tag)
  | identifier, [] => some (.identifier tag)
  | any, [] => some (.any tag)
  | usingDirective, [target] => some (.usingDirective tag target)
  | fail, [message] => some (.fail tag message)
  | unary operator, [operand] => some (.unary tag operator operand)
  | binding, [operand, captured] => some (.binding tag operand captured)
  | condition, [operand, test] => some (.condition tag operand test)
  | action, [operand, block] => some (.action tag operand block)
  | declaration _, [name] => some (.declaration tag name none)
  | declaration _, [name, base] => some (.declaration tag name (some base))
  | rule isOverride _, [name, body] => some (.rule tag isOverride name none body)
  | rule isOverride _, [name, params, body] =>
      some (.rule tag isOverride name (some params) body)
  | genericName _, name :: parameters => some (.genericName tag name parameters)
  | call _, name :: arguments => some (.call tag name arguments)
  | grammar _, header :: body => some (.grammar tag header body)
  | sequence _, items => some (.sequence tag items)
  | choice _, alternatives => some (.choice tag alternatives)
  | file preamble _, nodes => some (.file tag (nodes.take preamble) (nodes.drop preamble))
  | _, _ => none

end Shape

/-- One step: a shape and the span of the new node. -/
structure Step where
  shape : Shape
  span : Span

/-- Why a program builds no tree. -/
inductive Failure where
  /-- The ends of a span are reversed. -/
  | reversedSpan (span : Span)
  /-- Children are missing, or more or fewer than one tree is left. -/
  | unbalanced
  deriving DecidableEq

namespace Failure

/-- The complaint about a failure. -/
def message : Failure → String
  | .reversedSpan span => "span ends before it starts: " ++ span.text
  | .unbalanced => "a program builds exactly one tree"

end Failure

/-- The stack, with the node built last on top, after one step. -/
def step (stack : List Node) (step : Step) : Except Failure (List Node) :=
  if step.span.next < step.span.start then .error (.reversedSpan step.span)
  else if stack.length < step.shape.arity then .error .unbalanced
  else
    match step.shape.node? { span := step.span } (stack.take step.shape.arity).reverse with
    | some node => .ok (node :: stack.drop step.shape.arity)
    | none => .error .unbalanced

/-- The tree that a program builds.  Its nodes have no numbers yet. -/
def run (steps : List Step) : Except Failure Node := do
  match ← steps.foldlM step [] with
  | [node] => return node
  | _ => throw .unbalanced

end Builder
end GrammarCompiler
