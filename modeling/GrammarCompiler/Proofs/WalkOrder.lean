import GrammarCompiler.Proofs.Positions

/-!
# The order in which nodes are met

A walk goes on from a node to some of its children and meets nodes in preorder.
Two walks are of interest: the search for rules, which stops at every rule, and
the walk of an expression.  The definitions of a tree are those of the rules in
the order in which the search meets them, and what an expression mentions is
what stands at the nodes in the order in which its walk meets them.
-/

namespace GrammarCompiler
namespace Node

/-! ## Sizes -/

theorem sizes_append (left right : List Node) :
    sizes (left ++ right) = sizes left + sizes right := by
  induction left with
  | nil => simp [sizes]
  | cons node left inductionHypothesis => simp [sizes, inductionHypothesis, Nat.add_assoc]

theorem size_eq_succ_sizes (node : Node) : node.size = 1 + sizes node.children := by
  cases node with
  | declaration tag name base? => cases base? <;> simp [size, children, sizes, Nat.add_assoc]
  | rule tag isOverride name params? body =>
      cases params? <;> simp [size, children, sizes, Nat.add_assoc]
  | _ => simp [size, children, sizes, sizes_append, Nat.add_assoc]

theorem size_le_sizes_of_mem
    {node : Node}
    {nodes : List Node}
    (member : node ∈ nodes) :
    node.size ≤ sizes nodes := by
  induction nodes with
  | nil => cases member
  | cons first others inductionHypothesis =>
      rw [sizes]
      rcases List.mem_cons.mp member with rfl | later
      · exact Nat.le_add_right _ _
      · exact Nat.le_add_left_of_le (inductionHypothesis later)

/-- A child is smaller than its parent. -/
theorem size_lt_of_mem_children
    {node child : Node}
    (isChild : child ∈ node.children) :
    child.size < node.size := by
  have part : child.size ≤ sizes node.children := size_le_sizes_of_mem isChild
  rw [size_eq_succ_sizes node]
  omega

theorem length_flatMap_tags
    {nodes : List Node}
    (each : ∀ node ∈ nodes, node.tags.length = node.size) :
    (nodes.flatMap tags).length = sizes nodes := by
  induction nodes with
  | nil => rfl
  | cons first others inductionHypothesis =>
      obtain ⟨ofFirst, ofOthers⟩ := List.forall_mem_cons.mp each
      rw [List.flatMap_cons, List.length_append, ofFirst, inductionHypothesis ofOthers, sizes]

/-- The size of a tree counts its tags. -/
theorem length_tags (node : Node) : node.tags.length = node.size := by
  induction node using childInduction with
  | step node ofChildren =>
      rw [tags_eq_cons, List.length_cons, length_flatMap_tags ofChildren, size_eq_succ_sizes,
        Nat.add_comm]

end Node

/-! ## Walks -/

/-- The children through which a walk goes on. -/
structure Route where
  next : Node → List Node
  next_subset_children : ∀ node, next node ⊆ node.children

namespace Route

/-- The nodes that a walk meets, each before those met below it. -/
def nodes (route : Route) (node : Node) : List Node :=
  node :: (route.next node).flatMap fun child => route.nodes child
termination_by node.size
decreasing_by
  next goesOn => exact Node.size_lt_of_mem_children (route.next_subset_children node goesOn)

/-- The search for rules goes on everywhere but inside rules. -/
def toRules : Route where
  next node := if node.kind = .rule then [] else node.children
  next_subset_children node := by
    split
    · exact List.nil_subset _
    · exact List.Subset.refl _

/-- The walk of an expression. -/
def inExpressions : Route where
  next := Node.expressionChildren
  next_subset_children := Node.expressionChildren_subset_children

end Route

namespace Node

/-! ## Rules -/

/-- The rules of a tree that are reached without passing through another rule,
in source order. -/
def rulesIn (node : Node) : List Node :=
  (Route.toRules.nodes node).filter (·.kind = .rule)

/-- The rules in the body of a grammar, in source order. -/
def declaredRules : Node → List Node
  | grammar _ _ body => body.flatMap rulesIn
  | _ => []

theorem rulesIn_of_rule
    {rule : Node}
    (isRule : rule.kind = .rule) :
    rule.rulesIn = [rule] := by
  have stops : Route.toRules.next rule = [] := if_pos isRule
  rw [rulesIn, Route.nodes, stops]
  simp [isRule]

theorem rulesIn_eq_flatMap_children
    {node : Node}
    (notRule : node.kind ≠ .rule) :
    node.rulesIn = node.children.flatMap rulesIn := by
  have goesOn : Route.toRules.next node = node.children := if_neg notRule
  rw [rulesIn, Route.nodes, goesOn, List.filter_cons_of_neg (by simpa using notRule),
    List.filter_flatMap]
  rfl

/-- The search finds the rules that can be reached. -/
theorem mem_rulesIn_iff
    {node rule : Node} :
    rule ∈ node.rulesIn ↔ node.ReachesRule rule := by
  induction node using childInduction with
  | step node inductionHypothesis =>
      by_cases isRule : node.kind = .rule
      · rw [rulesIn_of_rule isRule, List.mem_singleton]
        constructor
        · rintro rfl
          exact .here isRule
        · intro reached
          cases reached with
          | here => rfl
          | through notRule => exact absurd isRule notRule
      · rw [rulesIn_eq_flatMap_children isRule, List.mem_flatMap]
        constructor
        · rintro ⟨child, isChild, member⟩
          exact .through isRule isChild ((inductionHypothesis child isChild).mp member)
        · intro reached
          cases reached with
          | here isRule' => exact absurd isRule' isRule
          | through _ isChild reached =>
              exact ⟨_, isChild, (inductionHypothesis _ isChild).mpr reached⟩

theorem kind_of_mem_declaredRules
    {node rule : Node}
    (member : rule ∈ node.declaredRules) :
    rule.kind = .rule := by
  cases node with
  | grammar tag header body =>
      obtain ⟨item, _, inItem⟩ := List.mem_flatMap.mp member
      exact (mem_rulesIn_iff.mp inItem).kind_eq
  | _ => cases member

/-- The tag of the name of a rule; any other node stands for itself. -/
def nameTag : Node → Tag
  | rule _ _ name _ _ => name.tag
  | node => node.tag

/-- The name that a rule declares. -/
def declaredName (source : String) (rule : Node) : String :=
  rule.nameTag.trimmedText source

/-- A rule is marked as overriding. -/
def overrides : Node → Bool
  | rule _ isOverride _ _ _ => isOverride
  | _ => false

/-- The definition that a rule gives. -/
def definition (rule : Node) : Definition where
  id := rule.id
  isOverride := rule.overrides
  name := rule.nameTag
  mentions := rule.ruleExpressions.flatMap mentions

theorem definitions_of_rule
    {rule : Node}
    (isRule : rule.kind = .rule) :
    rule.definitions = [rule.definition] := by
  cases rule with
  | rule tag isOverride name params? body =>
      cases params? <;>
        simp [definitions, definition, overrides, nameTag, ruleExpressions, Node.id, Node.tag]
  | _ => cases isRule

/-- The definitions of a tree are those of its rules. -/
theorem definitions_eq_map_rulesIn (node : Node) :
    node.definitions = node.rulesIn.map definition := by
  induction node using childInduction with
  | step node inductionHypothesis =>
      by_cases isRule : node.kind = .rule
      · rw [definitions_of_rule isRule, rulesIn_of_rule isRule, List.map_singleton]
      · rw [definitions_eq_flatMap_children isRule, rulesIn_eq_flatMap_children isRule,
          List.map_flatMap]
        exact List.flatMap_congr inductionHypothesis

theorem grammarDefinitions_eq_map (node : Node) :
    node.grammarDefinitions = node.declaredRules.map definition := by
  cases node with
  | grammar tag header body =>
      rw [grammarDefinitions, declaredRules, definitionsAll_eq_flatMap, List.map_flatMap]
      exact List.flatMap_congr fun item _ => definitions_eq_map_rulesIn item
  | _ => rfl

/-! ## Expressions -/

/-- The nodes in expression position in the parameters and the body of a rule,
each before those below it. -/
def walkedNodes (rule : Node) : List Node :=
  rule.ruleExpressions.flatMap Route.inExpressions.nodes

/-- The walk of an expression meets the nodes in expression position. -/
theorem mem_expressionNodes_iff
    {node inner : Node} :
    inner ∈ Route.inExpressions.nodes node ↔ node.InExpression inner := by
  induction node using childInduction with
  | step node inductionHypothesis =>
      have ofChild (child : Node) (goesOn : child ∈ node.expressionChildren) :=
        inductionHypothesis child (expressionChildren_subset_children node goesOn)
      rw [Route.nodes, List.mem_cons, List.mem_flatMap]
      constructor
      · rintro (rfl | ⟨child, goesOn, member⟩)
        · exact .here
        · exact .through goesOn ((ofChild child goesOn).mp member)
      · intro inNode
        cases inNode with
        | here => exact .inl rfl
        | through goesOn inChild => exact .inr ⟨_, goesOn, (ofChild _ goesOn).mpr inChild⟩

/-- The nodes that are met in a rule are those in expression position. -/
theorem mem_walkedNodes_iff
    {rule inner : Node} :
    inner ∈ rule.walkedNodes ↔ rule.InRule inner := by
  simp only [walkedNodes, List.mem_flatMap, mem_expressionNodes_iff]
  rfl

section

variable {select : Mention → Option α}
variable (ignoresArguments : ∀ tag, select (.argument tag) = none)

include ignoresArguments

theorem filterMap_argumentMentions (arguments : List Node) :
    (argumentMentions arguments).filterMap select =
      (arguments.filter isExpression).flatMap fun argument =>
        argument.mentions.filterMap select := by
  induction arguments with
  | nil => rfl
  | cons argument arguments inductionHypothesis =>
      rw [argumentMentions, List.filterMap_cons_none (ignoresArguments _),
        List.filterMap_append, inductionHypothesis]
      by_cases isExpression : argument.isExpression <;> simp [isExpression]

/-- What is selected from the mentions of an expression is selected at the node
itself or below the children through which the walk goes on.  Arguments are left
aside, since a call mentions each of them together with what stands below it. -/
theorem filterMap_mentions_eq_append (node : Node) :
    node.mentions.filterMap select =
      node.ownMentions.filterMap select ++
        node.expressionChildren.flatMap fun child => child.mentions.filterMap select := by
  cases node with
  | call tag name arguments =>
      have noArguments :
          (arguments.map fun argument => Mention.argument argument.tag).filterMap select = [] := by
        simp [ignoresArguments]
      rw [mentions, ownMentions, expressionChildren, List.filterMap_cons, List.filterMap_cons,
        filterMap_argumentMentions ignoresArguments, noArguments]
      split <;> rfl
  | sequence tag members | choice tag members =>
      simp [mentions, ownMentions, expressionChildren, isExpression, kind, Kind.isExpression,
        List.filterMap_flatMap]
  | binding tag operand captured =>
      simp only [mentions, ownMentions, expressionChildren, List.flatMap_singleton]
      exact List.filterMap_append (l := [Mention.binding captured.tag])
  | _ =>
      simp [mentions, ownMentions, expressionChildren, isExpression, kind, Kind.isExpression,
        tag]

/-- What is selected from the mentions of an expression is what is selected at
the nodes that its walk meets, in their order. -/
theorem filterMap_mentions (node : Node) :
    node.mentions.filterMap select =
      (Route.inExpressions.nodes node).flatMap fun inner =>
        inner.ownMentions.filterMap select := by
  induction node using childInduction with
  | step node inductionHypothesis =>
      rw [filterMap_mentions_eq_append ignoresArguments, Route.nodes, List.flatMap_cons,
        List.flatMap_assoc]
      congr 1
      refine List.flatMap_congr fun child goesOn => ?_
      exact inductionHypothesis child (expressionChildren_subset_children node goesOn)

/-- The same for the mentions of a definition and the nodes that are met in its
rule. -/
theorem filterMap_definition_mentions (rule : Node) :
    rule.definition.mentions.filterMap select =
      rule.walkedNodes.flatMap fun inner => inner.ownMentions.filterMap select := by
  rw [definition, walkedNodes, List.filterMap_flatMap, List.flatMap_assoc]
  exact List.flatMap_congr fun expression _ => filterMap_mentions ignoresArguments expression

end

end Node
end GrammarCompiler
