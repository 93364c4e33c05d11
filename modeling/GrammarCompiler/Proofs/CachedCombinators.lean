import GrammarCompiler.Proofs.PerCallValues

/-!
# What cached combinators keep

The combinator of a cached function is built in the first call and shared by all
later ones.  A function is cached if no definition of its rule binds a name or
needs a variable, so its blocks refer to no variable.  Parameters are not looked
at: a definition with parameters refers to the arguments of the call, and if it
is cached it keeps those of the first.
-/

namespace GrammarCompiler

namespace Node

/-- The values that a rule without variables takes from a call: the arguments, if
it has parameters. -/
def parameterValues (rule : Node) : List PerCallValue :=
  if rule.params?.isSome then [.arguments] else []

namespace FlattensTo

variable {flattening : Flattening} {rule flattened : Node}

theorem definition_eq
    (flattens : FlattensTo flattening rule flattened)
    (isRule : rule.kind = .rule) :
    flattened.definition = rule.definition := by
  rcases flattens with rfl | rfl
  · rfl
  · have stillRule : (rule.flatten flattening).kind = .rule := by rwa [kind_flatten]
    have same := definitions_flatten flattening rule
    rw [definitions_of_rule stillRule, definitions_of_rule isRule] at same
    exact List.singleton_inj.mp same

theorem parameterValues_eq
    (flattens : FlattensTo flattening rule flattened) :
    flattened.parameterValues = rule.parameterValues := by
  rcases flattens with rfl | rfl
  · rfl
  · cases rule with
    | rule tag isOverride name params? body => cases params? <;> simp only [flatten] <;> rfl
    | _ => simp only [flatten] <;> rfl

end FlattensTo
end Node

namespace Synthesis

variable {source : String} {analysis : Analysis}

/-- A rule whose mentions bring in no values takes the arguments of the call if it
has parameters, and nothing else. -/
theorem perCallValues_eq_parameterValues
    {rule : Node}
    (isRule : rule.kind = .rule)
    (noValues : ∀ mention ∈ rule.definition.mentions,
      mention.perCallValue? source analysis = none)
    {result : Combinator}
    (succeeds : ruleCombinator source analysis rule.ruleNode = .ok result) :
    result.perCallValues = rule.parameterValues := by
  have ofExpression {expression : Node} (isExpression : expression ∈ rule.ruleExpressions)
      {made : Combinator} (becomes : combinator source analysis expression = .ok made) :
      made.perCallValues = [] := by
    refine List.eq_nil_iff_forall_not_mem.mpr fun value inMade => ?_
    obtain ⟨mention, isMention, brings⟩ :=
      exists_mention_of_ruleExpression isExpression becomes inMade
    rw [noValues mention isMention] at brings
    cases brings
  have expressions := Node.ruleExpressions_eq isRule
  have isBody : rule.ruleBody ∈ rule.ruleExpressions := by simp [expressions]
  rcases ruleCombinator_eq_ok succeeds with
    ⟨noParams, bodySucceeds⟩ |
    ⟨params, paramsResult, bodyResult, isParams, paramsSucceed, bodySucceeds, rfl⟩
  · rw [ofExpression isBody bodySucceeds, Node.parameterValues,
      show rule.params? = none from noParams]
    rfl
  · have sameParams : rule.params? = some params := isParams
    have isExpression : params ∈ rule.ruleExpressions := by simp [expressions, sameParams]
    rw [Combinator.perCallValues, ofExpression isExpression paramsSucceed,
      ofExpression isBody bodySucceeds, Node.parameterValues, sameParams]
    rfl

end Synthesis

/-- The blocks of a cached function take the arguments of the call if their
definition has parameters, and nothing else. -/
theorem Node.BecomesFunction.perCallValues_of_isCached
    {source : String}
    {tag : Tag}
    {preamble grammars : List Node}
    {analysis : Analysis}
    (distinct : (file tag preamble grammars).DistinctIds)
    (analyzed : analyze source (file tag preamble grammars) = .ok analysis)
    {node : Node}
    (isGrammar : node ∈ grammars)
    {name : String}
    {function : MatcherFunction}
    (becomes : node.BecomesFunction source analysis name function)
    (isCached : function.isCached = true) :
    List.Forall₂ (fun rule block => block.combinator.perCallValues = rule.parameterValues)
      (node.rulesNamed source name) function.blocks := by
  rw [becomes.isCached, List.all_eq_true] at isCached
  refine forall₂_imp_of_mem becomes.blocks fun rule isNamed block isBlock => ?_
  have isDeclared := List.mem_of_mem_filter isNamed
  have hasRule : (file tag preamble grammars).HasRule rule :=
    hasRule_of_mem_declaredRules isGrammar isDeclared
  have noSlots : (rule.alternative source analysis.ruleNames).scope.slots = [] :=
    List.isEmpty_iff.mp (Bool.and_eq_true_iff.mp (isCached rule isNamed)).2
  obtain ⟨flattened, isFlattened, flattens, emitted⟩ := isBlock.combinator
  have isRule := kind_of_mem_declaredRules isFlattened
  rw [← flattens.parameterValues_eq]
  refine Synthesis.perCallValues_eq_parameterValues isRule (fun mention isMention => ?_) emitted
  rw [flattens.definition_eq hasRule.kind_eq] at isMention
  refine Option.eq_none_iff_forall_ne_some.mpr fun value brings => ?_
  obtain ⟨slot, inSlots, _⟩ :=
    exists_slot_of_perCallValue distinct analyzed hasRule isMention brings
  rw [noSlots] at inSlots
  cases inSlots

/-- The blocks of the cached functions of a class take the arguments of the call if
their definition has parameters, and nothing else. -/
def KeepsArgumentsOnly (source : String) (node : Node) (matcher : MatcherClass) : Prop :=
  ∀ function ∈ matcher.functions, function.isCached = true →
    List.Forall₂ (fun rule block => block.combinator.perCallValues = rule.parameterValues)
      (node.rulesNamed source function.name) function.blocks

/-- The combinators of cached functions refer to no variables.  What they keep of
a call are its arguments, in the definitions with parameters. -/
theorem cached_combinators_keep_arguments_only
    {settings : Settings}
    {tree : Node}
    {text : String}
    (distinct : tree.DistinctIds)
    (compiled : compile settings tree = .ok text) :
    ∃ grammars analysis file, CompilesTo settings tree text grammars analysis file ∧
      List.Forall₂ (KeepsArgumentsOnly settings.source) grammars file.classes := by
  obtain ⟨grammars, analysis, file, compiles, classes⟩ := compile_eq_ok distinct compiled
  refine ⟨grammars, analysis, file, compiles, ?_⟩
  obtain ⟨tag, preamble, rfl⟩ := compiles.isFile
  refine forall₂_imp_of_mem classes fun node isGrammar matcher isClass => ?_
  intro function isFunction isCached
  obtain ⟨name, _, becomes⟩ := exists_partner isClass.functions.flip isFunction
  rw [becomes.name]
  exact becomes.perCallValues_of_isCached distinct compiles.analyzed isGrammar isCached

/-- Settings for a rule with a parameter and a rule that calls it. -/
def parameterSettings : Settings where
  source := "G<c, i> A 1 = 2; B = A(1);"
  namespaceName? := some "N"

/-- The tree of the source of `parameterSettings`. -/
def parameterTree : Node :=
  .file ⟨0, ⟨0, 26⟩, {}⟩ []
    [.grammar ⟨1, ⟨0, 26⟩, {}⟩
      (.declaration ⟨2, ⟨0, 7⟩, {}⟩
        (.genericName ⟨3, ⟨0, 7⟩, {}⟩ (.code ⟨4, ⟨0, 1⟩, {}⟩)
          [.code ⟨5, ⟨2, 3⟩, {}⟩, .code ⟨6, ⟨5, 6⟩, {}⟩]) none)
      [.rule ⟨7, ⟨8, 16⟩, {}⟩ false (.code ⟨8, ⟨8, 9⟩, {}⟩)
        (some (.literal ⟨9, ⟨10, 11⟩, {}⟩)) (.literal ⟨10, ⟨14, 15⟩, {}⟩),
        .rule ⟨11, ⟨17, 26⟩, {}⟩ false (.code ⟨12, ⟨17, 18⟩, {}⟩) none
          (.call ⟨13, ⟨21, 25⟩, {}⟩ (.code ⟨14, ⟨21, 22⟩, {}⟩) [.code ⟨15, ⟨23, 24⟩, {}⟩])]]

/-- Both rules are cached, the one with the parameter too. -/
theorem exists_compilesTo_parameterTree :
    ∃ text grammars analysis file,
      compile parameterSettings parameterTree = .ok text ∧
      CompilesTo parameterSettings parameterTree text grammars analysis file ∧
      (file.classes.map fun matcher => matcher.functions.map fun function =>
        (function.isCached, function.blocks.map (·.combinator.perCallValues))) =
          [[(true, [[.arguments]]), (true, [[]])]] := by
  exact exists_compilesTo_of_view (by decide)

theorem cached_combinators_parameterTree :
    parameterTree.DistinctIds ∧
      ∃ text, compile parameterSettings parameterTree = .ok text ∧
        ∃ grammars analysis file,
          CompilesTo parameterSettings parameterTree text grammars analysis file ∧
          List.Forall₂ (KeepsArgumentsOnly parameterSettings.source) grammars file.classes := by
  have distinct : parameterTree.DistinctIds := by decide
  obtain ⟨text, _, _, _, compiled, _⟩ := exists_compilesTo_parameterTree
  exact ⟨distinct, text, compiled, cached_combinators_keep_arguments_only distinct compiled⟩

/-- A cached function keeps the arguments of the call in which it was built. -/
theorem cached_function_keeps_arguments :
    ∃ text grammars analysis file,
      compile parameterSettings parameterTree = .ok text ∧
      CompilesTo parameterSettings parameterTree text grammars analysis file ∧
      ∃ matcher ∈ file.classes, ∃ function ∈ matcher.functions, function.isCached = true ∧
        ∃ block ∈ function.blocks, .arguments ∈ block.combinator.perCallValues := by
  obtain ⟨text, grammars, analysis, file, compiled, compiles, values⟩ :=
    exists_compilesTo_parameterTree
  refine ⟨text, grammars, analysis, file, compiled, compiles, ?_⟩
  obtain ⟨matcher, classes, functions⟩ := List.map_eq_singleton_iff.mp values
  obtain ⟨function, others, isFunctions, first, _⟩ := List.map_eq_cons_iff.mp functions
  obtain ⟨isCached, blocks⟩ := Prod.mk.inj first
  obtain ⟨block, isBlock, ofBlock⟩ := List.map_eq_singleton_iff.mp blocks
  refine ⟨matcher, classes ▸ List.mem_cons_self, function, isFunctions ▸ List.mem_cons_self,
    isCached, block, isBlock ▸ List.mem_cons_self, ?_⟩
  rw [ofBlock]
  exact List.mem_cons_self

end GrammarCompiler
