import GrammarCompiler.Proofs.SynthesisCompleteness
import GrammarCompiler.Proofs.WalkOrder
import Mathlib.Data.List.Forall2

/-!
# What a successful synthesis made

A successful compilation is described by the tree alone.  Flattening keeps the
rules of a grammar in their order, so every definition is found again by its
number; the classes of the file belong to the grammars, their functions to the
names of rules, and the blocks of a function to the definitions of its name.
-/

namespace GrammarCompiler

/-! ## Lists in step -/

/-- Steps for all members succeed together if they give one output for each
input. -/
theorem mapM_eq_ok_iff_forall₂
    {step : α → Except ε β}
    {inputs : List α}
    {outputs : List β} :
    inputs.mapM step = .ok outputs ↔
      List.Forall₂ (fun input output => step input = .ok output) inputs outputs := by
  induction inputs generalizing outputs with
  | nil =>
      rw [List.mapM_nil, List.forall₂_nil_left_iff]
      exact ⟨fun succeeds => (Except.ok.inj succeeds).symm, fun empty => by rw [empty]; rfl⟩
  | cons input inputs inductionHypothesis =>
      simp only [List.mapM_cons, bind_eq_ok, inductionHypothesis, List.forall₂_cons_left_iff]
      constructor
      · rintro ⟨output, first, others, rest, result⟩
        cases result
        exact ⟨output, others, first, rest, rfl⟩
      · rintro ⟨output, others, first, rest, rfl⟩
        exact ⟨output, first, others, rest, rfl⟩

/-- What is collected from members is in step if it is so for each of them. -/
theorem forall₂_flatMap
    {related : β → γ → Prop}
    {left : α → List β}
    {right : α → List γ}
    {inputs : List α}
    (each : ∀ input ∈ inputs, List.Forall₂ related (left input) (right input)) :
    List.Forall₂ related (inputs.flatMap left) (inputs.flatMap right) := by
  induction inputs with
  | nil => exact .nil
  | cons input inputs inductionHypothesis =>
      obtain ⟨first, others⟩ := List.forall_mem_cons.mp each
      rw [List.flatMap_cons, List.flatMap_cons]
      exact List.rel_append first (inductionHypothesis others)

/-- A relation that follows for members keeps lists in step. -/
theorem forall₂_imp_of_mem
    {related implied : α → β → Prop}
    {left : List α}
    {right : List β}
    (inStep : List.Forall₂ related left right)
    (implies : ∀ first ∈ left, ∀ second, related first second → implied first second) :
    List.Forall₂ implied left right := by
  induction inStep with
  | nil => exact .nil
  | cons isRelated _ inductionHypothesis =>
      obtain ⟨first, others⟩ := List.forall_mem_cons.mp implies
      exact .cons (first _ isRelated) (inductionHypothesis others)

/-- Lists that are in step have related members at the same index. -/
theorem exists_partner_at
    {related : α → β → Prop}
    {left : List α}
    {right : List β}
    (inStep : List.Forall₂ related left right)
    {index : Nat}
    {member : α}
    (isMember : left[index]? = some member) :
    ∃ partner, right[index]? = some partner ∧ related member partner := by
  induction inStep generalizing index with
  | nil => cases isMember
  | cons first _ inductionHypothesis =>
      cases index with
      | zero =>
          cases isMember
          exact ⟨_, rfl, first⟩
      | succ index => exact inductionHypothesis isMember

/-- Every member has a partner in a list that is in step. -/
theorem exists_partner
    {related : α → β → Prop}
    {left : List α}
    {right : List β}
    (inStep : List.Forall₂ related left right)
    {member : α}
    (isMember : member ∈ left) :
    ∃ partner ∈ right, related member partner := by
  obtain ⟨index, isAt⟩ := List.mem_iff_getElem?.mp isMember
  obtain ⟨partner, partnerAt, isRelated⟩ := exists_partner_at inStep isAt
  exact ⟨partner, List.mem_of_getElem? partnerAt, isRelated⟩

namespace Node

/-! ## Rules of a flattened tree -/

/-- A rule before and after flattening.  Flattening leaves alone what is written
in places where no groups are expected, rules included. -/
def FlattensTo (flattening : Flattening) (rule flattened : Node) : Prop :=
  flattened = rule ∨ flattened = rule.flatten flattening

/-- Flattening keeps the rules of a tree in their order. -/
theorem rulesIn_flatten
    (flattening : Flattening)
    (node : Node) :
    List.Forall₂ (FlattensTo flattening) node.rulesIn (node.flatten flattening).rulesIn := by
  have same (nodes : List Node) : List.Forall₂ (FlattensTo flattening) nodes nodes :=
    List.forall₂_same.mpr fun _ _ => .inl rfl
  have ofSequence (tag : Tag) (items : List Node) :
      (sequence tag items).rulesIn = items.flatMap rulesIn :=
    rulesIn_eq_flatMap_children (by simp [kind])
  have ofChoice (tag : Tag) (alternatives : List Node) :
      (choice tag alternatives).rulesIn = alternatives.flatMap rulesIn :=
    rulesIn_eq_flatMap_children (by simp [kind])
  induction node with
  | rule tag isOverride name params? body =>
      have stillRule : ((rule tag isOverride name params? body).flatten flattening).kind = .rule :=
        kind_flatten _ _
      rw [rulesIn_of_rule rfl, rulesIn_of_rule stillRule]
      exact .cons (.inr rfl) .nil
  | sequence tag items ofItems =>
      simp only [flatten, ofSequence, flattenAll_eq_map, spliceSequences_eq_splice]
      rw [flatMap_splice (flatMap_sequenceItems ofSequence), List.flatMap_map]
      exact forall₂_flatMap ofItems
  | choice tag alternatives ofAlternatives =>
      simp only [flatten, ofChoice, flattenAll_eq_map, spliceChoices_eq_splice]
      rw [flatMap_splice (flatMap_choiceAlternatives ofChoice), List.flatMap_map]
      exact forall₂_flatMap ofAlternatives
  | file tag preamble grammars _ ofGrammars =>
      rw [flatten, rulesIn_eq_flatMap_children (by simp [kind]),
        rulesIn_eq_flatMap_children (by simp [kind])]
      simp only [children, flattenAll_eq_map, List.flatMap_append, List.flatMap_map]
      exact List.rel_append (same _) (forall₂_flatMap ofGrammars)
  | grammar tag first others _ ofOthers
  | call tag first others _ ofOthers =>
      rw [flatten, rulesIn_eq_flatMap_children (by simp [kind]),
        rulesIn_eq_flatMap_children (by simp [kind])]
      simp only [children, flattenAll_eq_map, List.flatMap_cons, List.flatMap_map]
      exact List.rel_append (same _) (forall₂_flatMap ofOthers)
  | unary tag operator operand ofOperand =>
      rw [flatten, rulesIn_eq_flatMap_children (by simp [kind]),
        rulesIn_eq_flatMap_children (by simp [kind])]
      simp only [children, List.flatMap_singleton]
      exact ofOperand
  | binding tag operand other ofOperand
  | condition tag operand other ofOperand
  | action tag operand other ofOperand =>
      rw [flatten, rulesIn_eq_flatMap_children (by simp [kind]),
        rulesIn_eq_flatMap_children (by simp [kind])]
      simp only [children, List.flatMap_cons]
      exact List.rel_append ofOperand (same _)
  | _ =>
      simp only [flatten]
      exact same _

/-- Flattening keeps the rules in the body of a grammar in their order. -/
theorem declaredRules_flatten
    (flattening : Flattening)
    (node : Node) :
    List.Forall₂ (FlattensTo flattening) node.declaredRules
      (node.flatten flattening).declaredRules := by
  cases node with
  | grammar tag header body =>
      simp only [flatten, declaredRules, flattenAll_eq_map, List.flatMap_map]
      exact forall₂_flatMap fun item _ => rulesIn_flatten flattening item
  | rule tag isOverride name params? body => cases params? <;> exact .nil
  | _ =>
      simp only [flatten]
      exact .nil

theorem FlattensTo.id_eq
    {flattening : Flattening}
    {rule flattened : Node}
    (flattens : FlattensTo flattening rule flattened) :
    flattened.id = rule.id := by
  rcases flattens with rfl | rfl
  · rfl
  · exact congrArg Tag.id (tag_flatten flattening rule)

theorem declaredRules_subset_rulesIn (node : Node) :
    node.declaredRules ⊆ node.rulesIn := by
  intro rule member
  cases node with
  | grammar tag header body =>
      rw [rulesIn_eq_flatMap_children (by simp [kind]), children, List.flatMap_cons]
      exact List.mem_append_right _ member
  | _ => cases member

/-! ## Rules as synthesis sees them -/

/-- The parameters of a rule. -/
def params? : Node → Option Node
  | rule _ _ _ params? _ => params?
  | _ => none

/-- The body of a rule; any other node stands for itself. -/
def ruleBody : Node → Node
  | rule _ _ _ _ body => body
  | node => node

/-- A rule as synthesis sees it. -/
def ruleNode (rule : Node) : Synthesis.RuleNode where
  id := rule.id
  params? := rule.params?
  body := rule.ruleBody

theorem ruleExpressions_eq
    {rule : Node}
    (isRule : rule.kind = .rule) :
    rule.ruleExpressions = rule.params?.toList ++ [rule.ruleBody] := by
  cases rule with
  | rule tag isOverride name params? body => rfl
  | _ => cases isRule

end Node

namespace Synthesis

theorem ruleNodes_eq_map_rulesIn (node : Node) :
    ruleNodes node = node.rulesIn.map Node.ruleNode := by
  induction node using Node.childInduction with
  | step node inductionHypothesis =>
      by_cases isRule : node.kind = .rule
      · rw [Node.rulesIn_of_rule isRule, List.map_singleton]
        cases node with
        | rule tag isOverride name params? body =>
            rw [ruleNodes]
            rfl
        | _ => cases isRule
      · rw [ruleNodes_eq_flatMap_children isRule, Node.rulesIn_eq_flatMap_children isRule,
          List.map_flatMap]
        exact List.flatMap_congr inductionHypothesis

/-- In a tree with distinct numbers, a rule is found by its number. -/
theorem ruleNode?_of_mem_rulesIn
    {node rule : Node}
    (distinct : node.DistinctIds)
    (member : rule ∈ node.rulesIn) :
    ruleNode? (ruleNodes node) rule.id = some rule.ruleNode := by
  have isRuleNode : rule.ruleNode ∈ ruleNodes node := by
    rw [ruleNodes_eq_map_rulesIn]
    exact List.mem_map_of_mem member
  exact ruleNode?_eq_some distinct isRuleNode

/-! ## Inversion -/

variable {source : String} {analysis : Analysis}

/-- The combinator of a rule is that of its body, after that of its parameters if
it has any. -/
theorem ruleCombinator_eq_ok
    {rule : RuleNode}
    {result : Combinator}
    (succeeds : ruleCombinator source analysis rule = .ok result) :
    (rule.params? = none ∧ combinator source analysis rule.body = .ok result) ∨
      ∃ params paramsResult bodyResult, rule.params? = some params ∧
        combinator source analysis params = .ok paramsResult ∧
        combinator source analysis rule.body = .ok bodyResult ∧
        result = .parameters paramsResult bodyResult := by
  unfold ruleCombinator at succeeds
  split at succeeds
  · next params isParams =>
      obtain ⟨paramsResult, paramsSucceed, succeeds⟩ := bind_eq_ok.mp succeeds
      obtain ⟨bodyResult, bodySucceeds, same⟩ := bind_eq_ok.mp succeeds
      cases same
      exact .inr ⟨params, paramsResult, bodyResult, isParams, paramsSucceed, bodySucceeds, rfl⟩
  · next noParams => exact .inl ⟨noParams, succeeds⟩

/-- A block is made of a definition: it declares the variables of the definition
and assigns the combinator of the rule with its number. -/
structure IsBlockOf
    (source : String)
    (analysis : Analysis)
    (rules : List RuleNode)
    (alternative : Alternative)
    (block : DefinitionBlock) : Prop where
  slots : block.slots = alternative.scope.slots
  combinator : ∃ rule, ruleNode? rules alternative.ruleId = some rule ∧
    ruleCombinator source analysis rule = .ok block.combinator

/-- Blocks are made of the definitions, one of each. -/
theorem forall₂_of_blocks_eq_ok
    {rules : List RuleNode}
    {name : String}
    {alternatives : List Alternative}
    {index : Nat}
    {result : List DefinitionBlock}
    (succeeds : blocks source analysis rules name index alternatives = .ok result) :
    List.Forall₂ (IsBlockOf source analysis rules) alternatives result := by
  induction alternatives generalizing index result with
  | nil =>
      cases succeeds
      exact .nil
  | cons alternative alternatives inductionHypothesis =>
      unfold blocks at succeeds
      split at succeeds
      · cases succeeds
      · next rule found =>
          obtain ⟨combinator, isCombinator, succeeds⟩ := bind_eq_ok.mp succeeds
          obtain ⟨others, isOthers, result⟩ := bind_eq_ok.mp succeeds
          cases result
          exact .cons ⟨rfl, rule, found, isCombinator⟩ (inductionHypothesis isOthers)

/-- A function is made of the definitions of a rule. -/
structure IsFunctionOf
    (source : String)
    (analysis : Analysis)
    (rules : List RuleNode)
    (set : AlternativeSet)
    (function : MatcherFunction) : Prop where
  name : function.name = set.name
  isOverride : function.isOverride = set.isOverride
  isCached : function.isCached = set.isCacheable
  blocks : List.Forall₂ (IsBlockOf source analysis rules) set.alternatives function.blocks

theorem isFunctionOf_of_matcherFunction_eq_ok
    {rules : List RuleNode}
    {set : AlternativeSet}
    {function : MatcherFunction}
    (succeeds : matcherFunction source analysis rules set = .ok function) :
    IsFunctionOf source analysis rules set function := by
  obtain ⟨result, isResult, succeeds⟩ := bind_eq_ok.mp succeeds
  split at succeeds
  · cases succeeds
  · cases succeeds
    exact ⟨rfl, rfl, rfl, forall₂_of_blocks_eq_ok isResult⟩

/-- The class of a grammar declares what the grammar declares and has one
function for each of its rules. -/
theorem matcherClass_eq_ok
    {node : Node}
    {matcher : MatcherClass}
    (succeeds : matcherClass source analysis node = .ok matcher) :
    ∃ grammar, analysis.grammar? node.id = some grammar ∧
      matcher.declaration = grammar.declaration ∧
      List.Forall₂ (IsFunctionOf source analysis (ruleNodes node)) grammar.rules.sets
        matcher.functions := by
  unfold matcherClass at succeeds
  split at succeeds
  · cases succeeds
  · next grammar found =>
      obtain ⟨functions, isFunctions, result⟩ := bind_eq_ok.mp succeeds
      cases result
      refine ⟨grammar, found, rfl, ?_⟩
      exact (mapM_eq_ok_iff_forall₂.mp isFunctions).imp fun _ _ =>
        isFunctionOf_of_matcherFunction_eq_ok

/-- The classes of a file are those of its grammars. -/
theorem parserFile_eq_ok
    {settings : Settings}
    {tag : Tag}
    {preamble grammars : List Node}
    {file : ParserFile}
    (succeeds : parserFile settings analysis (.file tag preamble grammars) = .ok file) :
    List.Forall₂ (fun node matcher => matcherClass settings.source analysis node = .ok matcher)
      grammars file.classes := by
  obtain ⟨namespaceName, _, succeeds⟩ := bind_eq_ok.mp succeeds
  obtain ⟨lines, _, succeeds⟩ := bind_eq_ok.mp succeeds
  obtain ⟨classes, isClasses, result⟩ := bind_eq_ok.mp succeeds
  cases result
  exact mapM_eq_ok_iff_forall₂.mp isClasses

/-- A file is named and imports what the settings and the analysis say. -/
theorem grammarFile_and_imports_of_parserFile
    {settings : Settings}
    {tree : Node}
    {file : ParserFile}
    (succeeds : parserFile settings analysis tree = .ok file) :
    file.grammarFile = settings.file ∧ file.imports = analysis.imports := by
  obtain ⟨_, _, succeeds⟩ := bind_eq_ok.mp succeeds
  split at succeeds
  · obtain ⟨_, _, succeeds⟩ := bind_eq_ok.mp succeeds
    obtain ⟨_, _, result⟩ := bind_eq_ok.mp succeeds
    cases result
    exact ⟨rfl, rfl⟩
  · cases succeeds

end Synthesis

/-! ## Definitions of an analyzed grammar -/

namespace Node

/-- The rules in the body of a grammar that declare a name, in source order. -/
def rulesNamed (source name : String) (node : Node) : List Node :=
  node.declaredRules.filter (·.declaredName source = name)

/-- The entry of a rule in the rule table, once all rule names are known. -/
def alternative (source : String) (ruleNames : NameSet) (rule : Node) : Alternative where
  ruleId := rule.id
  isOverride := rule.overrides
  scope := (rule.definition.occurrenceScope source).settle ruleNames

/-- The names that the rules of a grammar declare, in source order. -/
def declaredNames (source : String) (node : Node) : List String :=
  node.declaredRules.map (declaredName source)

/-- The set of a name in the rule table of a grammar, once all rule names are
known. -/
def alternativeSet
    (source : String)
    (ruleNames : NameSet)
    (node : Node)
    (name : String) : AlternativeSet :=
  AlternativeSet.settle
    { name, alternatives := (node.rulesNamed source name).map fun rule =>
        rule.definition.alternative source }
    ruleNames

/-- The definitions of a name are the rules that declare it. -/
theorem alternatives_alternativeSet
    (source : String)
    (ruleNames : NameSet)
    (node : Node)
    (name : String) :
    (node.alternativeSet source ruleNames name).alternatives =
      (node.rulesNamed source name).map (alternative source ruleNames) := by
  rw [alternativeSet, AlternativeSet.settle, List.map_map]
  rfl

end Node

theorem Node.ruleName_definition
    (source : String)
    (rule : Node) :
    rule.definition.ruleName source = rule.declaredName source := rfl

theorem RuleTable.groupOf_grammarDefinitions
    (source : String)
    (node : Node)
    (name : String) :
    groupOf (node.grammarDefinitions.map fun definition =>
        (definition.ruleName source, definition.alternative source)) name =
      { name, alternatives := (node.rulesNamed source name).map fun rule =>
          rule.definition.alternative source } := by
  simp only [groupOf, Node.grammarDefinitions_eq_map, List.map_map, List.filter_map,
    Function.comp_def, Node.ruleName_definition, Node.rulesNamed]

/-- The rules of an analyzed grammar: one set for each name, in the order of
first declarations. -/
theorem Analyzer.GrammarOutcome.sets_settle
    {source : String}
    {node : Node}
    {grammar : GrammarAnalysis}
    (outcome : Analyzer.GrammarOutcome source node grammar)
    (ruleNames : NameSet) :
    (grammar.settle ruleNames).rules.sets =
      (NameSet.ofList (node.declaredNames source)).toList.map
        (node.alternativeSet source ruleNames) := by
  have sameNames : (node.grammarDefinitions.map fun definition =>
      (definition.ruleName source, definition.alternative source)).map (·.1) =
        node.declaredNames source := by
    rw [Node.grammarDefinitions_eq_map, List.map_map, List.map_map]
    rfl
  rw [GrammarAnalysis.settle, RuleTable.settle, outcome.rules, RuleTable.sets_ofDefinitions,
    sameNames, List.map_map]
  refine List.map_congr_left fun name _ => ?_
  rw [Function.comp, RuleTable.groupOf_grammarDefinitions, Node.alternativeSet]

/-- The definitions that an analysis holds are the rules of the file. -/
theorem Analysis.exists_rule_of_alternative
    {source : String}
    {tree : Node}
    {analysis : Analysis}
    (analyzed : analyze source tree = .ok analysis)
    {grammar : GrammarAnalysis}
    (isGrammar : grammar ∈ analysis.grammars)
    {set : AlternativeSet}
    (isSet : set ∈ grammar.rules.sets)
    {alternative : Alternative}
    (isAlternative : alternative ∈ set.alternatives) :
    ∃ tag preamble grammars, tree = .file tag preamble grammars ∧
      ∃ node ∈ grammars, node.id = grammar.nodeId ∧
        ∃ rule ∈ node.declaredRules,
          rule.alternative source analysis.ruleNames = alternative := by
  obtain ⟨tag, preamble, _, walked, rfl, _, outcomes, rfl⟩ := analyze_eq_ok analyzed
  obtain ⟨_, isWalked, rfl⟩ := List.mem_map.mp isGrammar
  obtain ⟨step, isStep, rfl⟩ := List.mem_map.mp isWalked
  have outcome := outcomes step isStep
  rw [outcome.sets_settle] at isSet
  obtain ⟨name, _, rfl⟩ := List.mem_map.mp isSet
  rw [Node.alternatives_alternativeSet] at isAlternative
  obtain ⟨rule, isNamed, rfl⟩ := List.mem_map.mp isAlternative
  exact ⟨tag, preamble, _, rfl, step.1, List.mem_map_of_mem isStep, outcome.nodeId.symm,
    rule, List.mem_of_mem_filter isNamed, rfl⟩

/-! ## Compiled files -/

namespace Node

/-- A block is made of a rule of a grammar: it declares the variables of the rule
and assigns the combinator of the rule after flattening. -/
structure BecomesBlock
    (source : String)
    (analysis : Analysis)
    (node rule : Node)
    (block : DefinitionBlock) : Prop where
  slots : block.slots = (rule.alternative source analysis.ruleNames).scope.slots
  combinator : ∃ flattened ∈ node.optimize.declaredRules, FlattensTo .ofAll rule flattened ∧
    Synthesis.ruleCombinator source analysis flattened.ruleNode = .ok block.combinator

/-- A function is made of the rules of a grammar that declare a name. -/
structure BecomesFunction
    (source : String)
    (analysis : Analysis)
    (node : Node)
    (ruleName : String)
    (function : MatcherFunction) : Prop where
  name : function.name = ruleName
  isOverride : function.isOverride = (node.rulesNamed source ruleName).any overrides
  isCached : function.isCached = (node.rulesNamed source ruleName).all fun rule =>
    !(rule.alternative source analysis.ruleNames).scope.hasBindings &&
      (rule.alternative source analysis.ruleNames).scope.slots.isEmpty
  blocks : List.Forall₂ (node.BecomesBlock source analysis) (node.rulesNamed source ruleName)
    function.blocks

/-- A class is made of a grammar, with a function for each name that its rules
declare. -/
structure BecomesClass
    (source : String)
    (analysis : Analysis)
    (node : Node)
    (matcher : MatcherClass) : Prop where
  declaration : ∃ tag header body, node = grammar tag header body ∧
    Declaration.ofNode source header = .ok matcher.declaration
  functions : List.Forall₂ (node.BecomesFunction source analysis)
    (NameSet.ofList (node.declaredNames source)).toList matcher.functions

variable {source : String} {analysis : Analysis} {node : Node}

/-- The rule of a definition is found again after flattening. -/
theorem becomesBlock_of_isBlockOf
    (distinct : node.DistinctIds)
    {rule : Node}
    (isDeclared : rule ∈ node.declaredRules)
    {block : DefinitionBlock}
    (isBlock : Synthesis.IsBlockOf source analysis (Synthesis.ruleNodes node.optimize)
      (rule.alternative source analysis.ruleNames) block) :
    node.BecomesBlock source analysis rule block := by
  obtain ⟨sameSlots, found, isFound, isCombinator⟩ := isBlock
  obtain ⟨flattened, isFlattened, flattens⟩ :=
    exists_partner (declaredRules_flatten .ofAll node) isDeclared
  have foundByNumber := Synthesis.ruleNode?_of_mem_rulesIn (distinct.flatten .ofAll)
    (declaredRules_subset_rulesIn _ isFlattened)
  have sameRule : found = flattened.ruleNode := by
    rw [flattens.id_eq] at foundByNumber
    exact Option.some.inj (isFound.symm.trans foundByNumber)
  exact ⟨sameSlots, flattened, isFlattened, flattens, sameRule ▸ isCombinator⟩

theorem becomesFunction_of_isFunctionOf
    (distinct : node.DistinctIds)
    {name : String}
    {function : MatcherFunction}
    (isFunction : Synthesis.IsFunctionOf source analysis (Synthesis.ruleNodes node.optimize)
      (node.alternativeSet source analysis.ruleNames name) function) :
    node.BecomesFunction source analysis name function := by
  have alternatives := alternatives_alternativeSet source analysis.ruleNames node name
  refine ⟨isFunction.name, ?_, ?_, ?_⟩
  · rw [isFunction.isOverride, AlternativeSet.isOverride, alternatives, List.any_map]
    rfl
  · rw [isFunction.isCached, alternativeSet, AlternativeSet.settle, List.map_map, List.all_map]
    rfl
  · have inStep := isFunction.blocks
    rw [alternatives, List.forall₂_map_left_iff] at inStep
    refine forall₂_imp_of_mem inStep fun rule isNamed block isBlock => ?_
    exact becomesBlock_of_isBlockOf distinct (List.mem_of_mem_filter isNamed) isBlock

theorem becomesClass_of_matcherClass_eq_ok
    (distinct : node.DistinctIds)
    {grammar : GrammarAnalysis}
    (outcome : Analyzer.GrammarOutcome source node grammar)
    (found : analysis.grammar? node.id = some (grammar.settle analysis.ruleNames))
    {matcher : MatcherClass}
    (succeeds : Synthesis.matcherClass source analysis node.optimize = .ok matcher) :
    node.BecomesClass source analysis matcher := by
  obtain ⟨settled, isSettled, sameDeclaration, functions⟩ := Synthesis.matcherClass_eq_ok succeeds
  have sameId : node.optimize.id = node.id := congrArg Tag.id (tag_flatten .ofAll node)
  rw [sameId, found] at isSettled
  cases isSettled
  refine ⟨?_, ?_⟩
  · obtain ⟨tag, header, body, isGrammar, declared⟩ := outcome.declared
    exact ⟨tag, header, body, isGrammar, sameDeclaration ▸ declared⟩
  · rw [outcome.sets_settle, List.forall₂_map_left_iff] at functions
    exact functions.imp fun _ _ => becomesFunction_of_isFunctionOf distinct

end Node

/-- The parts of a successful compilation. -/
structure CompilesTo
    (settings : Settings)
    (tree : Node)
    (text : String)
    (grammars : List Node)
    (analysis : Analysis)
    (file : ParserFile) : Prop where
  isFile : ∃ tag preamble, tree = .file tag preamble grammars
  analyzed : analyze settings.source tree = .ok analysis
  generated : Synthesis.parserFile settings analysis tree.optimize = .ok file
  written : file.text = text

theorem exists_compilesTo
    {settings : Settings}
    {tree : Node}
    {text : String}
    (compiled : compile settings tree = .ok text) :
    ∃ grammars analysis file, CompilesTo settings tree text grammars analysis file := by
  obtain ⟨analysis, analyzed, generated⟩ := bind_eq_ok.mp compiled
  obtain ⟨file, succeeds, isText⟩ := map_eq_ok.mp generated
  obtain ⟨tag, preamble, _, _, isFile, _⟩ := analyze_eq_ok analyzed
  exact ⟨_, analysis, file, ⟨tag, preamble, isFile⟩, analyzed, succeeds, isText⟩

/-- What is seen of the generated file is seen of that of a compilation. -/
theorem exists_compilesTo_of_view
    {settings : Settings}
    {tree : Node}
    {view : ParserFile → α}
    {seen : α}
    (looked : ((analyze settings.source tree).bind fun analysis =>
      Synthesis.parserFile settings analysis tree.optimize).toOption.map view = some seen) :
    ∃ text grammars analysis file, compile settings tree = .ok text ∧
      CompilesTo settings tree text grammars analysis file ∧ view file = seen := by
  obtain ⟨file, generated, isSeen⟩ := exists_eq_ok_of_toOption_map looked
  obtain ⟨analysis, analyzed, succeeds⟩ := bind_eq_ok.mp generated
  obtain ⟨tag, preamble, _, _, isFile, _⟩ := analyze_eq_ok analyzed
  have compiled : compile settings tree = .ok file.text :=
    bind_eq_ok.mpr ⟨analysis, analyzed, map_eq_ok.mpr ⟨file, succeeds, rfl⟩⟩
  exact ⟨file.text, _, analysis, file, compiled,
    ⟨⟨tag, preamble, isFile⟩, analyzed, succeeds, rfl⟩, isSeen⟩

/-- The classes of the file are made of the flattened grammars. -/
theorem CompilesTo.classes
    {settings : Settings}
    {tree : Node}
    {text : String}
    {grammars : List Node}
    {analysis : Analysis}
    {file : ParserFile}
    (compiles : CompilesTo settings tree text grammars analysis file) :
    List.Forall₂
      (fun node matcher =>
        Synthesis.matcherClass settings.source analysis node.optimize = .ok matcher)
      grammars file.classes := by
  obtain ⟨tag, preamble, rfl⟩ := compiles.isFile
  have succeeds := compiles.generated
  rw [Node.optimize, Node.flatten, Node.flattenAll_eq_map] at succeeds
  have inStep := Synthesis.parserFile_eq_ok succeeds
  rw [List.forall₂_map_left_iff] at inStep
  exact inStep

/-- The file that a compilation writes has one class for each grammar of the
tree. -/
theorem compile_eq_ok
    {settings : Settings}
    {tree : Node}
    {text : String}
    (distinct : tree.DistinctIds)
    (compiled : compile settings tree = .ok text) :
    ∃ grammars analysis file, CompilesTo settings tree text grammars analysis file ∧
      List.Forall₂ (Node.BecomesClass settings.source analysis) grammars file.classes := by
  obtain ⟨grammars, analysis, file, compiles⟩ := exists_compilesTo compiled
  refine ⟨grammars, analysis, file, compiles, ?_⟩
  have classes := compiles.classes
  obtain ⟨tag, preamble, rfl⟩ := compiles.isFile
  refine forall₂_imp_of_mem classes fun node isGrammar matcher becomes => ?_
  obtain ⟨grammar, outcome, found⟩ :=
    Analysis.grammar?_eq_some distinct compiles.analyzed isGrammar
  have nodeDistinct := distinct.child (List.mem_append_right preamble isGrammar)
  exact Node.becomesClass_of_matcherClass_eq_ok nodeDistinct outcome found becomes

end GrammarCompiler
