import GrammarCompiler.Tree.Node

/-!
# Flattening nested groups

A sequence inside a sequence, or a choice inside a choice, is replaced by its
members.  Children are flattened first, so one replacement per level is
enough.  Nodes keep their tags.
-/

namespace GrammarCompiler

/-- Which groups are flattened. -/
structure Flattening where
  choices : Bool
  sequences : Bool
  deriving DecidableEq, Inhabited

namespace Flattening

/-- Flatten choices only. -/
def ofChoices : Flattening := { choices := true, sequences := false }

/-- Flatten sequences only. -/
def ofSequences : Flattening := { choices := false, sequences := true }

/-- Flatten choices and sequences. -/
def ofAll : Flattening := { choices := true, sequences := true }

end Flattening

namespace Node

/-- The members of a sequence; any other node stands for itself. -/
def sequenceItems : Node → List Node
  | sequence _ items => items
  | node => [node]

/-- The members of a choice; any other node stands for itself. -/
def choiceAlternatives : Node → List Node
  | choice _ alternatives => alternatives
  | node => [node]

/-- Replace the sequences among the items of a sequence by their members. -/
def spliceSequences (flattening : Flattening) (items : List Node) : List Node :=
  if flattening.sequences then items.flatMap sequenceItems else items

/-- Replace the choices among the alternatives of a choice by their members. -/
def spliceChoices (flattening : Flattening) (alternatives : List Node) : List Node :=
  if flattening.choices then alternatives.flatMap choiceAlternatives else alternatives

mutual

/-- Flatten the groups of a tree. -/
def flatten (flattening : Flattening) : Node → Node
  | sequence tag items =>
      sequence tag (spliceSequences flattening (flattenAll flattening items))
  | choice tag alternatives =>
      choice tag (spliceChoices flattening (flattenAll flattening alternatives))
  | file tag preamble grammars => file tag preamble (flattenAll flattening grammars)
  | grammar tag header body => grammar tag header (flattenAll flattening body)
  | rule tag isOverride name none body =>
      rule tag isOverride name none (body.flatten flattening)
  | rule tag isOverride name (some params) body =>
      rule tag isOverride name (some (params.flatten flattening)) (body.flatten flattening)
  | call tag name arguments => call tag name (flattenAll flattening arguments)
  | unary tag operator operand => unary tag operator (operand.flatten flattening)
  | binding tag operand captured => binding tag (operand.flatten flattening) captured
  | condition tag operand test => condition tag (operand.flatten flattening) test
  | action tag operand block => action tag (operand.flatten flattening) block
  | usingDirective tag target => usingDirective tag target
  | comment tag => comment tag
  | declaration tag name base? => declaration tag name base?
  | genericName tag name parameters => genericName tag name parameters
  | code tag => code tag
  | literal tag => literal tag
  | identifier tag => identifier tag
  | any tag => any tag
  | fail tag message => fail tag message

/-- Flatten the groups of some trees. -/
def flattenAll (flattening : Flattening) : List Node → List Node
  | [] => []
  | node :: nodes => node.flatten flattening :: flattenAll flattening nodes

end

@[simp] theorem flattenAll_eq_map (flattening : Flattening) (nodes : List Node) :
    flattenAll flattening nodes = nodes.map (flatten flattening) := by
  induction nodes with
  | nil => rfl
  | cons node nodes inductionHypothesis => simp [flattenAll, inductionHypothesis]

/-- Flatten all groups before synthesis. -/
def optimize (node : Node) : Node :=
  node.flatten .ofAll

/-- The number of nodes that flattening removes. -/
def removedBy (flattening : Flattening) (node : Node) : Nat :=
  node.size - (node.flatten flattening).size

end Node
end GrammarCompiler
