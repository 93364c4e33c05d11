import GrammarCompiler.Proofs.AnalysisOutcome
import Mathlib.Data.List.Flatten

/-!
# Where names stand in a file

Rules are reached from the bodies of grammars without passing through another
rule.  Within a rule, expression positions are reached from its parameters and
its body through operands, members of groups and call arguments that are
expressions.  These relations say what analysis looks at, apart from the order in
which it does so: its definitions are those of the rules of the file, and their
mentions come from the nodes in expression position.
-/

namespace GrammarCompiler
namespace Node

/-! ## Rules of a file -/

/-- A rule can be reached from a node without passing through another rule. -/
inductive ReachesRule : Node → Node → Prop where
  | here {rule : Node} :
      rule.kind = .rule → ReachesRule rule rule
  | through {node child rule : Node} :
      node.kind ≠ .rule → child ∈ node.children → ReachesRule child rule →
        ReachesRule node rule

theorem ReachesRule.kind_eq
    {node rule : Node}
    (reached : node.ReachesRule rule) :
    rule.kind = .rule := by
  induction reached with
  | here isRule => exact isRule
  | through _ _ _ inductionHypothesis => exact inductionHypothesis

/-- A rule of a file: it can be reached from the body of one of its grammars. -/
def HasRule (tree rule : Node) : Prop :=
  ∃ tag preamble grammars, tree = file tag preamble grammars ∧
    ∃ grammarTag header body, grammar grammarTag header body ∈ grammars ∧
      ∃ member ∈ body, member.ReachesRule rule

theorem HasRule.kind_eq
    {tree rule : Node}
    (hasRule : tree.HasRule rule) :
    rule.kind = .rule := by
  obtain ⟨_, _, _, _, _, _, _, _, _, _, reached⟩ := hasRule
  exact reached.kind_eq

/-- The definitions of a node that is no rule are those of its children. -/
theorem definitions_eq_flatMap_children
    {node : Node}
    (notRule : node.kind ≠ .rule) :
    node.definitions = node.children.flatMap definitions := by
  cases node with
  | rule tag isOverride name params? body => exact absurd rfl notRule
  | declaration tag name base? => cases base? <;> simp [definitions, children]
  | _ => simp [definitions, children]

/-- A rule is one definition. -/
theorem exists_definitions_eq_singleton
    {rule : Node}
    (isRule : rule.kind = .rule) :
    ∃ definition, rule.definitions = [definition] := by
  cases rule with
  | rule tag isOverride name params? body =>
      cases params? <;> exact ⟨_, by rw [definitions]⟩
  | _ => cases isRule

/-- The definitions of a tree are those of the rules that it reaches. -/
theorem mem_definitions_iff
    {node : Node}
    {definition : Definition} :
    definition ∈ node.definitions ↔
      ∃ rule, node.ReachesRule rule ∧ rule.definitions = [definition] := by
  induction node using childInduction with
  | step node inductionHypothesis =>
      by_cases isRule : node.kind = .rule
      · obtain ⟨only, single⟩ := exists_definitions_eq_singleton isRule
        rw [single, List.mem_singleton]
        constructor
        · rintro rfl
          exact ⟨node, .here isRule, single⟩
        · rintro ⟨rule, reached, single'⟩
          cases reached with
          | here => exact (List.singleton_inj.mp (single.symm.trans single')).symm
          | through notRule => exact absurd isRule notRule
      · rw [definitions_eq_flatMap_children isRule]
        constructor
        · intro member
          obtain ⟨child, isChild, inChild⟩ := List.mem_flatMap.mp member
          obtain ⟨rule, reached, single⟩ := (inductionHypothesis child isChild).mp inChild
          exact ⟨rule, .through isRule isChild reached, single⟩
        · rintro ⟨rule, reached, single⟩
          cases reached with
          | here isRule' => exact absurd isRule' isRule
          | through _ isChild reached =>
              exact List.mem_flatMap.mpr
                ⟨_, isChild, (inductionHypothesis _ isChild).mpr ⟨rule, reached, single⟩⟩

/-- The definitions of a file are those of its rules. -/
theorem mem_fileDefinitions_iff
    {tree : Node}
    {definition : Definition} :
    definition ∈ tree.fileDefinitions ↔
      ∃ rule, tree.HasRule rule ∧ rule.definitions = [definition] := by
  constructor
  · intro member
    cases tree with
    | file tag preamble grammars =>
        obtain ⟨node, isGrammar, inGrammar⟩ := List.mem_flatMap.mp member
        cases node with
        | grammar grammarTag header body =>
            rw [grammarDefinitions, definitionsAll_eq_flatMap] at inGrammar
            obtain ⟨item, inBody, inItem⟩ := List.mem_flatMap.mp inGrammar
            obtain ⟨rule, reached, single⟩ := mem_definitions_iff.mp inItem
            exact ⟨rule, ⟨tag, preamble, grammars, rfl, grammarTag, header, body, isGrammar,
              item, inBody, reached⟩, single⟩
        | _ => cases inGrammar
    | _ => cases member
  · rintro ⟨rule, ⟨tag, preamble, grammars, rfl, grammarTag, header, body, isGrammar,
      item, inBody, reached⟩, single⟩
    refine List.mem_flatMap.mpr ⟨_, isGrammar, ?_⟩
    rw [grammarDefinitions, definitionsAll_eq_flatMap]
    exact List.mem_flatMap.mpr ⟨item, inBody, mem_definitions_iff.mpr ⟨rule, reached, single⟩⟩

/-! ## Expression positions -/

/-- The children through which the walk of an expression goes on. -/
def expressionChildren : Node → List Node
  | unary _ _ operand => [operand]
  | binding _ operand _ => [operand]
  | condition _ operand _ => [operand]
  | action _ operand _ => [operand]
  | sequence _ items => items
  | choice _ alternatives => alternatives
  | call _ _ arguments => arguments.filter isExpression
  | _ => []

theorem expressionChildren_subset_children (node : Node) :
    node.expressionChildren ⊆ node.children := by
  intro child member
  cases node with
  | call tag name arguments => exact List.mem_cons_of_mem _ (List.mem_of_mem_filter member)
  | _ => simp_all [expressionChildren, children]

/-- A node stands in expression position in an expression. -/
inductive InExpression : Node → Node → Prop where
  | here {node : Node} : InExpression node node
  | through {node child inner : Node} :
      child ∈ node.expressionChildren → InExpression child inner → InExpression node inner

/-- The parameters and the body of a rule. -/
def ruleExpressions : Node → List Node
  | rule _ _ _ params? body => params?.toList ++ [body]
  | _ => []

/-- A node stands in expression position in the parameters or the body of a
rule. -/
def InRule (rule inner : Node) : Prop :=
  ∃ expression ∈ rule.ruleExpressions, expression.InExpression inner

/-- What the walk of an expression meets at a node itself. -/
def ownMentions : Node → List Mention
  | identifier tag => [.identifier tag]
  | call tag name arguments =>
      .callee tag.id name.tag :: arguments.map fun argument => .argument argument.tag
  | binding _ _ captured => [.binding captured.tag]
  | node => if node.isExpression then [] else [.misplaced node.kind node.tag]

theorem identifier_mem_ownMentions_iff
    {node : Node}
    {tag : Tag} :
    .identifier tag ∈ node.ownMentions ↔ node = identifier tag := by
  cases node <;> simp [ownMentions, isExpression, kind, Kind.isExpression, eq_comm]

theorem argument_mem_ownMentions_iff
    {node : Node}
    {tag : Tag} :
    .argument tag ∈ node.ownMentions ↔
      ∃ callTag name arguments, node = call callTag name arguments ∧
        ∃ argument ∈ arguments, argument.tag = tag := by
  cases node <;> simp [ownMentions, isExpression, kind, Kind.isExpression]

theorem binding_mem_ownMentions_iff
    {node : Node}
    {tag : Tag} :
    .binding tag ∈ node.ownMentions ↔
      ∃ bindingTag operand captured, node = binding bindingTag operand captured ∧
        captured.tag = tag := by
  cases node <;> simp [ownMentions, isExpression, kind, Kind.isExpression, eq_comm]

/-- The walk of an expression meets what stands at the node itself and what it
meets in the children through which it goes on. -/
theorem mem_mentions_cons_iff
    {node : Node}
    {mention : Mention} :
    mention ∈ node.mentions ↔
      mention ∈ node.ownMentions ∨
        ∃ child ∈ node.expressionChildren, mention ∈ child.mentions := by
  cases node with
  | call tag name arguments =>
      simp only [mentions, ownMentions, expressionChildren, argumentMentions_eq_flatMap,
        List.mem_cons, List.mem_flatMap, List.mem_map, List.mem_filter, or_assoc]
      refine or_congr_right ?_
      constructor
      · rintro ⟨argument, member, rfl | inside⟩
        · exact .inl ⟨argument, member, rfl⟩
        · split at inside
          · next isExpression => exact .inr ⟨argument, ⟨member, isExpression⟩, inside⟩
          · cases inside
      · rintro (⟨argument, member, rfl⟩ | ⟨argument, ⟨member, isExpression⟩, inside⟩)
        · exact ⟨argument, member, .inl rfl⟩
        · exact ⟨argument, member, .inr (by rwa [if_pos isExpression])⟩
  | sequence tag members | choice tag members =>
      simp [mentions, ownMentions, expressionChildren, isExpression, kind, Kind.isExpression]
  | _ =>
      simp [mentions, ownMentions, expressionChildren, isExpression, kind, Kind.isExpression,
        tag]

/-- The mentions of an expression are those of the nodes in expression
position. -/
theorem mem_mentions_iff
    {node : Node}
    {mention : Mention} :
    mention ∈ node.mentions ↔
      ∃ inner, node.InExpression inner ∧ mention ∈ inner.ownMentions := by
  induction node using childInduction with
  | step node inductionHypothesis =>
      have ofChild (child : Node) (goesOn : child ∈ node.expressionChildren) :=
        inductionHypothesis child (expressionChildren_subset_children node goesOn)
      rw [mem_mentions_cons_iff]
      constructor
      · rintro (own | ⟨child, goesOn, inside⟩)
        · exact ⟨node, .here, own⟩
        · obtain ⟨inner, inChild, own⟩ := (ofChild child goesOn).mp inside
          exact ⟨inner, .through goesOn inChild, own⟩
      · rintro ⟨inner, inNode, own⟩
        cases inNode with
        | here => exact .inl own
        | through goesOn inChild =>
            exact .inr ⟨_, goesOn, (ofChild _ goesOn).mpr ⟨inner, inChild, own⟩⟩

/-- The definition of a rule mentions what its parameters and its body
mention. -/
theorem mentions_eq_flatMap_ruleExpressions
    {rule : Node}
    (isRule : rule.kind = .rule)
    {definition : Definition}
    (single : rule.definitions = [definition]) :
    definition.mentions = rule.ruleExpressions.flatMap mentions := by
  cases rule with
  | rule tag isOverride name params? body =>
      cases params? <;>
        rw [definitions, List.singleton_inj] at single <;>
        subst single <;>
        simp [ruleExpressions]
  | _ => cases isRule

/-- The mentions of a rule's definition are those of the nodes in expression
position in the rule. -/
theorem mem_mentions_of_rule_iff
    {rule : Node}
    (isRule : rule.kind = .rule)
    {definition : Definition}
    (single : rule.definitions = [definition])
    {mention : Mention} :
    mention ∈ definition.mentions ↔
      ∃ inner, rule.InRule inner ∧ mention ∈ inner.ownMentions := by
  rw [mentions_eq_flatMap_ruleExpressions isRule single, List.mem_flatMap]
  constructor
  · rintro ⟨expression, isExpression, inside⟩
    obtain ⟨inner, inExpression, own⟩ := mem_mentions_iff.mp inside
    exact ⟨inner, ⟨expression, isExpression, inExpression⟩, own⟩
  · rintro ⟨inner, ⟨expression, isExpression, inExpression⟩, own⟩
    exact ⟨expression, isExpression, mem_mentions_iff.mpr ⟨inner, inExpression, own⟩⟩

/-- A rule of a file has a definition, which mentions what is met in expression
position in the rule. -/
theorem exists_definition_of_hasRule
    {tree rule : Node}
    (hasRule : tree.HasRule rule) :
    ∃ definition ∈ tree.fileDefinitions, rule.definitions = [definition] ∧
      ∀ node, rule.InRule node → ∀ mention ∈ node.ownMentions,
        mention ∈ definition.mentions := by
  obtain ⟨definition, single⟩ := exists_definitions_eq_singleton hasRule.kind_eq
  refine ⟨definition, mem_fileDefinitions_iff.mpr ⟨rule, hasRule, single⟩, single, ?_⟩
  intro node inRule mention own
  exact (mem_mentions_of_rule_iff hasRule.kind_eq single).mpr ⟨node, inRule, own⟩

/-- What the definitions of a file mention is met in expression position in its
rules. -/
theorem exists_mention_iff
    {tree : Node}
    {holds : Mention → Prop} :
    (∃ definition ∈ tree.fileDefinitions, ∃ mention ∈ definition.mentions, holds mention) ↔
      ∃ rule node, tree.HasRule rule ∧ rule.InRule node ∧
        ∃ mention ∈ node.ownMentions, holds mention := by
  constructor
  · rintro ⟨definition, isDefinition, mention, isMention, satisfied⟩
    obtain ⟨rule, hasRule, single⟩ := mem_fileDefinitions_iff.mp isDefinition
    obtain ⟨node, inRule, own⟩ := (mem_mentions_of_rule_iff hasRule.kind_eq single).mp isMention
    exact ⟨rule, node, hasRule, inRule, mention, own, satisfied⟩
  · rintro ⟨rule, node, hasRule, inRule, mention, own, satisfied⟩
    obtain ⟨definition, isDefinition, _, mentioned⟩ := exists_definition_of_hasRule hasRule
    exact ⟨definition, isDefinition, mention, mentioned node inRule mention own, satisfied⟩

end Node
end GrammarCompiler
