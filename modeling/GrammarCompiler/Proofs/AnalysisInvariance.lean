import GrammarCompiler.Proofs.Flattening
import GrammarCompiler.Synthesis.Synthesize
import Mathlib.Data.List.Basic

/-!
# Analysis does not see grouping

The walk of a definition meets the same things in the same order before and
after flattening, and so does the search for definitions.  Hence the analysis of
a flattened tree is that of the tree, failures included, and compilation, which
flattens all groups itself, gives the same text or the same failure.
-/

namespace GrammarCompiler
namespace Node

theorem mentions_sequence (tag : Tag) (items : List Node) :
    (sequence tag items).mentions = items.flatMap mentions := by
  rw [mentions, mentionsAll_eq_flatMap]

theorem mentions_choice (tag : Tag) (alternatives : List Node) :
    (choice tag alternatives).mentions = alternatives.flatMap mentions := by
  rw [mentions, mentionsAll_eq_flatMap]

/-- The walk of an expression meets the same after flattening. -/
@[simp] theorem mentions_flatten
    (flattening : Flattening)
    (node : Node) :
    (node.flatten flattening).mentions = node.mentions := by
  induction node with
  | sequence tag items ofItems =>
      simp only [flatten, mentions_sequence, flattenAll_eq_map, spliceSequences_eq_splice]
      rw [flatMap_splice (flatMap_sequenceItems mentions_sequence), List.flatMap_map]
      exact List.flatMap_congr ofItems
  | choice tag alternatives ofAlternatives =>
      simp only [flatten, mentions_choice, flattenAll_eq_map, spliceChoices_eq_splice]
      rw [flatMap_splice (flatMap_choiceAlternatives mentions_choice), List.flatMap_map]
      exact List.flatMap_congr ofAlternatives
  | call tag name arguments _ ofArguments =>
      simp only [flatten, mentions, flattenAll_eq_map, argumentMentions_eq_flatMap,
        List.flatMap_map, tag_flatten, isExpression_flatten]
      congr 1
      apply List.flatMap_congr
      intro argument member
      rw [ofArguments argument member]
  | unary tag operator operand ofOperand => simp only [flatten, mentions, ofOperand]
  | binding tag operand other ofOperand
  | condition tag operand other ofOperand
  | action tag operand other ofOperand => simp only [flatten, mentions, ofOperand]
  | rule tag isOverride name params? body => cases params? <;> simp only [flatten, mentions]
  | _ => simp only [flatten, mentions]

theorem definitions_sequence (tag : Tag) (items : List Node) :
    (sequence tag items).definitions = items.flatMap definitions := by
  rw [definitions, definitionsAll_eq_flatMap]

theorem definitions_choice (tag : Tag) (alternatives : List Node) :
    (choice tag alternatives).definitions = alternatives.flatMap definitions := by
  rw [definitions, definitionsAll_eq_flatMap]

/-- The search for definitions finds the same ones after flattening. -/
@[simp] theorem definitions_flatten
    (flattening : Flattening)
    (node : Node) :
    (node.flatten flattening).definitions = node.definitions := by
  induction node with
  | sequence tag items ofItems =>
      simp only [flatten, definitions_sequence, flattenAll_eq_map, spliceSequences_eq_splice]
      rw [flatMap_splice (flatMap_sequenceItems definitions_sequence), List.flatMap_map]
      exact List.flatMap_congr ofItems
  | choice tag alternatives ofAlternatives =>
      simp only [flatten, definitions_choice, flattenAll_eq_map, spliceChoices_eq_splice]
      rw [flatMap_splice (flatMap_choiceAlternatives definitions_choice), List.flatMap_map]
      exact List.flatMap_congr ofAlternatives
  | file tag other members _ ofRest
  | grammar tag other members _ ofRest
  | call tag other members _ ofRest =>
      simp only [flatten, definitions, flattenAll_eq_map, definitionsAll_eq_flatMap,
        List.flatMap_map]
      rw [List.flatMap_congr ofRest]
  | rule tag isOverride name params? body =>
      cases params? <;> simp only [flatten, definitions, mentions_flatten]
  | unary tag operator operand ofOperand => simp only [flatten, definitions, ofOperand]
  | binding tag operand other ofOperand
  | condition tag operand other ofOperand
  | action tag operand other ofOperand => simp only [flatten, definitions, ofOperand]
  | _ => simp only [flatten]

end Node

/-! ## The passes -/

namespace Analyzer

/-- One grammar is walked alike after flattening. -/
theorem walkGrammar_flatten
    (source : String)
    (known : NameSet)
    (flattening : Flattening)
    (node : Node) :
    walkGrammar source known (node.flatten flattening) = walkGrammar source known node := by
  cases node with
  | grammar tag header body =>
      have sameDefinitions :
          Node.definitionsAll (Node.flattenAll flattening body) = Node.definitionsAll body := by
        simp [List.flatMap_map]
      simp only [Node.flatten, walkGrammar, sameDefinitions]
  | rule tag isOverride name params? body => cases params? <;> rfl
  | _ => rfl

/-- Grammars are walked alike after flattening, one after the other. -/
theorem walkGrammars_flatten
    (source : String)
    (analyzer : Analyzer)
    (flattening : Flattening)
    (nodes : List Node) :
    walkGrammars source analyzer (Node.flattenAll flattening nodes) =
      walkGrammars source analyzer nodes := by
  induction nodes generalizing analyzer with
  | nil => rfl
  | cons node nodes inductionHypothesis =>
      rw [Node.flattenAll, walkGrammars, walkGrammars, walkGrammar_flatten]
      simp only [inductionHypothesis]

/-- An analyzer does not see grouping. -/
theorem analyze_flatten
    (source : String)
    (analyzer : Analyzer)
    (flattening : Flattening)
    (tree : Node) :
    analyzer.analyze source (tree.flatten flattening) = analyzer.analyze source tree := by
  cases tree with
  | file tag preamble grammars =>
      simp only [Node.flatten, analyze, walkGrammars_flatten]
  | rule tag isOverride name params? body => cases params? <;> rfl
  | _ => rfl

end Analyzer

/-- The analysis of a flattened tree is that of the tree. -/
theorem analyze_flatten_eq
    (source : String)
    (flattening : Flattening)
    (tree : Node) :
    analyze source (tree.flatten flattening) = analyze source tree := by
  rw [analyze, analyze, Analyzer.analyze_flatten]

/-- Analysis and compilation are invariant under every flattening: both fail
with the same failure, or analysis gives the same rule names, imports,
declarations, rule tables and classifications, and compilation the same
text. -/
theorem analyze_and_compile_flatten
    (settings : Settings)
    (flattening : Flattening)
    (tree : Node) :
    analyze settings.source (tree.flatten flattening) = analyze settings.source tree ∧
      compile settings (tree.flatten flattening) = compile settings tree := by
  have sameAnalysis := analyze_flatten_eq settings.source flattening tree
  refine ⟨sameAnalysis, ?_⟩
  rw [compile, compile, sameAnalysis, Node.optimize_flatten]

end GrammarCompiler
