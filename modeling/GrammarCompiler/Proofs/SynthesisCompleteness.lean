import GrammarCompiler.Proofs.AnalysisInvariance
import GrammarCompiler.Proofs.ExpressionSynthesis
import GrammarCompiler.Proofs.NoBreach

/-!
# Analysis is complete for synthesis

If the nodes of a tree have distinct numbers and their spans fit the source, a
successful analysis holds all that synthesis asks for, also after groups were
flattened.  The only breach that compilation can report is a missing namespace.
-/

namespace GrammarCompiler

/-- A search finds the one member that satisfies the test. -/
theorem find?_eq_some_of_unique
    {values : List α}
    {test : α → Bool}
    {value : α}
    (member : value ∈ values)
    (satisfied : test value = true)
    (unique : ∀ other ∈ values, test other = true → other = value) :
    values.find? test = some value := by
  cases found : values.find? test with
  | none => exact absurd satisfied (List.find?_eq_none.mp found value member)
  | some other =>
      rw [unique other (List.mem_of_find?_eq_some found) (List.find?_some found)]

namespace Node

theorem DistinctIds.child
    {node child : Node}
    (distinct : node.DistinctIds)
    (isChild : child ∈ node.children) :
    child.DistinctIds := by
  rw [DistinctIds, ids_eq_cons] at distinct
  exact (List.nodup_flatMap.mp (List.nodup_cons.mp distinct).2).1 child isChild

theorem childIds_sublist (node : Node) :
    (node.children.map id).Sublist node.ids := by
  rw [ids_eq_cons, List.map_eq_flatMap]
  refine (List.Sublist.flatMap_right _ fun child _ => ?_).cons _
  rw [List.singleton_sublist]
  exact id_mem_ids child

theorem FitsSource.reached
    {source : String}
    {node rule : Node}
    (fits : node.FitsSource source)
    (reached : node.ReachesRule rule) :
    rule.FitsSource source := by
  induction reached with
  | here => exact fits
  | through _ isChild _ inductionHypothesis => exact inductionHypothesis (fits.child isChild)

end Node

namespace Analysis

/-- In a tree with distinct numbers, a grammar is found by its number. -/
theorem grammar?_eq_some
    {source : String}
    {tag : Tag}
    {preamble grammars : List Node}
    {analysis : Analysis}
    (distinct : (Node.file tag preamble grammars).DistinctIds)
    (analyzed : analyze source (.file tag preamble grammars) = .ok analysis)
    {node : Node}
    (isGrammar : node ∈ grammars) :
    ∃ grammar, Analyzer.GrammarOutcome source node grammar ∧
      analysis.grammar? node.id = some (grammar.settle analysis.ruleNames) := by
  obtain ⟨_, _, imported, walked, isFile, _, outcomes, rfl⟩ := analyze_eq_ok analyzed
  cases isFile
  obtain ⟨step, isStep, rfl⟩ := List.mem_map.mp isGrammar
  refine ⟨step.2, outcomes step isStep, ?_⟩
  have grammarIds : ((walked.map (·.1)).map Node.id).Nodup := by
    refine distinct.sublist (List.Sublist.trans ?_ (Node.childIds_sublist _))
    exact (List.sublist_append_right _ _).map Node.id
  rw [List.map_map] at grammarIds
  apply find?_eq_some_of_unique
  · exact List.mem_map_of_mem (List.mem_map_of_mem isStep)
  · exact beq_iff_eq.mpr (outcomes step isStep).nodeId
  · intro other isOther sameId
    obtain ⟨_, isWalked, rfl⟩ := List.mem_map.mp isOther
    obtain ⟨otherStep, isOtherStep, rfl⟩ := List.mem_map.mp isWalked
    have sameNumber : otherStep.1.id = step.1.id :=
      (outcomes otherStep isOtherStep).nodeId.symm.trans (eq_of_beq sameId)
    cases List.inj_on_of_nodup_map grammarIds isOtherStep isStep sameNumber
    rfl

end Analysis

namespace Synthesis

/-! ## Rules of a tree -/

/-- The rules of a node that is no rule are those of its children. -/
theorem ruleNodes_eq_flatMap_children
    {node : Node}
    (notRule : node.kind ≠ .rule) :
    ruleNodes node = node.children.flatMap ruleNodes := by
  cases node with
  | rule tag isOverride name params? body => exact absurd rfl notRule
  | declaration tag name base? => cases base? <;> simp [ruleNodes, Node.children]
  | _ => simp [ruleNodes, Node.children]

/-- Synthesis collects the rules that are reached without passing through
another rule. -/
theorem mem_ruleNodes_of_reachesRule
    {node : Node}
    {tag : Tag}
    {isOverride : Bool}
    {name : Node}
    {params? : Option Node}
    {body : Node}
    (reached : node.ReachesRule (.rule tag isOverride name params? body)) :
    { id := tag.id, params?, body } ∈ ruleNodes node := by
  generalize isRule : Node.rule tag isOverride name params? body = rule at reached
  induction reached with
  | here =>
      subst isRule
      rw [ruleNodes]
      exact List.mem_cons_self
  | through notRule isChild _ inductionHypothesis =>
      rw [ruleNodes_eq_flatMap_children notRule]
      exact List.mem_flatMap.mpr ⟨_, isChild, inductionHypothesis isRule⟩

/-- The numbers of rules are met in preorder, each at most once. -/
theorem ruleIds_sublist (node : Node) :
    ((ruleNodes node).map (·.id)).Sublist node.ids := by
  induction node using Node.childInduction with
  | step node inductionHypothesis =>
      rw [Node.ids_eq_cons]
      by_cases isRule : node.kind = .rule
      · cases node with
        | rule tag isOverride name params? body =>
            rw [ruleNodes]
            exact List.Sublist.cons_cons _ (List.nil_sublist _)
        | _ => cases isRule
      · rw [ruleNodes_eq_flatMap_children isRule, List.map_flatMap]
        exact (List.Sublist.flatMap_right _ inductionHypothesis).cons _

/-- In a tree with distinct numbers, a rule is found by its number. -/
theorem ruleNode?_eq_some
    {node : Node}
    (distinct : node.DistinctIds)
    {rule : RuleNode}
    (member : rule ∈ ruleNodes node) :
    ruleNode? (ruleNodes node) rule.id = some rule := by
  have distinctRules : ((ruleNodes node).map (·.id)).Nodup :=
    distinct.sublist (ruleIds_sublist node)
  refine find?_eq_some_of_unique (List.mem_reverse.mpr member) (beq_self_eq_true _) ?_
  intro other otherMember sameId
  exact List.inj_on_of_nodup_map distinctRules (List.mem_reverse.mp otherMember) member
    (eq_of_beq sameId)

/-! ## From rules to classes -/

variable {source : String} {analysis : Analysis}

/-- A rule becomes a combinator if the analysis knows what its definition
mentions. -/
theorem exists_ruleCombinator
    {tag : Tag}
    {isOverride : Bool}
    {name : Node}
    {params? : Option Node}
    {body : Node}
    (fits : (Node.rule tag isOverride name params? body).FitsSource source)
    {definition : Definition}
    (single : (Node.rule tag isOverride name params? body).definitions = [definition])
    (known : ∀ mention ∈ definition.mentions, mention.IsKnown analysis) :
    ∃ result, ruleCombinator source analysis { id := tag.id, params?, body } = .ok result := by
  have each : ∀ expression ∈ (Node.rule tag isOverride name params? body).ruleExpressions,
      ∃ result, combinator source analysis expression = .ok result := by
    intro expression isExpression
    have isChild := (Node.ruleExpressions_sublist_children _).subset isExpression
    refine exists_combinator (fits.child isChild) fun mention inside => known mention ?_
    rw [Node.mentions_eq_flatMap_ruleExpressions rfl single]
    exact List.mem_flatMap.mpr ⟨expression, isExpression, inside⟩
  cases params? with
  | none => exact each body List.mem_cons_self
  | some params =>
      refine exists_bind_eq_ok (each params List.mem_cons_self) fun _ => ?_
      refine exists_bind_eq_ok (each body ?_) fun _ => ⟨_, rfl⟩
      exact List.mem_cons_of_mem _ List.mem_cons_self

/-- Every definition gets a block if its rule is found and becomes a
combinator. -/
theorem exists_blocks
    {rules : List RuleNode}
    {name : String}
    {alternatives : List Alternative}
    (each : ∀ alternative ∈ alternatives, ∃ rule,
      ruleNode? rules alternative.ruleId = some rule ∧
        ∃ result, ruleCombinator source analysis rule = .ok result)
    (index : Nat) :
    ∃ result, blocks source analysis rules name index alternatives = .ok result ∧
      result.length = alternatives.length := by
  induction alternatives generalizing index with
  | nil => exact ⟨[], rfl, rfl⟩
  | cons alternative alternatives inductionHypothesis =>
      obtain ⟨⟨rule, found, first, firstSucceeds⟩, others⟩ := List.forall_mem_cons.mp each
      obtain ⟨rest, restSucceeds, sameLength⟩ := inductionHypothesis others (index + 1)
      refine ⟨{ slots := alternative.scope.slots, combinator := first } :: rest, ?_, ?_⟩
      · simp only [blocks, found, firstSucceeds, restSucceeds]
        rfl
      · rw [List.length_cons, sameLength, List.length_cons]

/-- A rule becomes a function if it has definitions and all of them get
blocks. -/
theorem exists_matcherFunction
    {rules : List RuleNode}
    {set : AlternativeSet}
    (defined : set.alternatives ≠ [])
    (each : ∀ alternative ∈ set.alternatives, ∃ rule,
      ruleNode? rules alternative.ruleId = some rule ∧
        ∃ result, ruleCombinator source analysis rule = .ok result) :
    ∃ result, matcherFunction source analysis rules set = .ok result := by
  obtain ⟨result, succeeds, sameLength⟩ := exists_blocks each 0
  have nonempty : result.isEmpty = false := by
    rw [List.isEmpty_eq_false_iff, ← List.length_pos_iff, sameLength, List.length_pos_iff]
    exact defined
  refine ⟨⟨set.name, set.isOverride, set.isCacheable, result⟩, ?_⟩
  refine bind_eq_ok.mpr ⟨result, succeeds, ?_⟩
  rw [nonempty]
  rfl

/-- The rule of a definition in a grammar is found by its number and becomes a
combinator. -/
theorem exists_rule_of_definition
    {node : Node}
    (distinct : node.DistinctIds)
    (fits : node.FitsSource source)
    {definition : Definition}
    (isDefinition : definition ∈ node.grammarDefinitions)
    (known : ∀ mention ∈ definition.mentions, mention.IsKnown analysis) :
    ∃ rule, ruleNode? (ruleNodes node) definition.id = some rule ∧
      ∃ result, ruleCombinator source analysis rule = .ok result := by
  have reached : ∃ rule, node.ReachesRule rule ∧ rule.definitions = [definition] := by
    cases node with
    | grammar tag header body =>
        rw [Node.grammarDefinitions, Node.definitionsAll_eq_flatMap] at isDefinition
        apply Node.mem_definitions_iff.mp
        rw [Node.definitions, Node.definitionsAll_eq_flatMap]
        exact List.mem_append_right _ isDefinition
    | _ => cases isDefinition
  obtain ⟨rule, reached, single⟩ := reached
  have ruleFits := fits.reached reached
  cases rule with
  | rule tag isOverride name params? body =>
      have sameId : definition.id = tag.id := by
        cases params? <;>
          rw [Node.definitions, List.singleton_inj] at single <;>
          rw [← single]
      rw [sameId]
      exact ⟨_, ruleNode?_eq_some distinct (mem_ruleNodes_of_reachesRule reached),
        exists_ruleCombinator ruleFits single known⟩
  | _ => cases reached.kind_eq

/-- A grammar becomes a class if the analysis holds its outcome and knows what
its definitions mention. -/
theorem exists_matcherClass
    {node : Node}
    (distinct : node.DistinctIds)
    (fits : node.FitsSource source)
    {grammar : GrammarAnalysis}
    (outcome : Analyzer.GrammarOutcome source node grammar)
    {ruleNames : NameSet}
    (found : analysis.grammar? node.id = some (grammar.settle ruleNames))
    (known : ∀ definition ∈ node.grammarDefinitions,
      ∀ mention ∈ definition.mentions, mention.IsKnown analysis) :
    ∃ result, matcherClass source analysis node = .ok result := by
  rw [matcherClass, found]
  refine exists_bind_eq_ok (exists_mapM_eq_ok fun set isSet => ?_) fun _ => ⟨_, rfl⟩
  rw [GrammarAnalysis.settle, RuleTable.settle, outcome.rules] at isSet
  obtain ⟨unsettled, isUnsettled, rfl⟩ := List.mem_map.mp isSet
  apply exists_matcherFunction
  · rw [AlternativeSet.settle, ne_eq, List.map_eq_nil_iff]
    exact RuleTable.alternatives_ne_nil isUnsettled
  · intro alternative member
    obtain ⟨before, inUnsettled, rfl⟩ := List.mem_map.mp member
    obtain ⟨name, isNamed⟩ := RuleTable.mem_alternatives_iff.mp
      ⟨unsettled, isUnsettled, inUnsettled⟩
    obtain ⟨definition, isDefinition, same⟩ := List.mem_map.mp isNamed
    cases same
    exact exists_rule_of_definition distinct fits isDefinition (known definition isDefinition)

/-- The line of a member of the preamble can be written. -/
theorem exists_preambleLine
    {node : Node}
    (fits : node.FitsSource source) :
    ∃ line, preambleLine source node = .ok line := by
  cases node with
  | usingDirective tag target =>
      have targetFits := fits.child List.mem_cons_self
      exact exists_bind_eq_ok targetFits.exists_readTrimmed fun _ => ⟨_, rfl⟩
  | _ => exact fits.exists_read

end Synthesis

/-! ## Whole files -/

namespace Settings

/-- A namespace is given that is not blank. -/
def HasNamespace (settings : Settings) : Prop :=
  ∃ name, settings.namespaceName? = some name ∧ ∃ c ∈ name.toList, Text.isBlank c = false

theorem exists_requireNamespace
    {settings : Settings}
    (given : settings.HasNamespace) :
    ∃ name, settings.requireNamespace = .ok name := by
  obtain ⟨name, isName, c, member, notBlank⟩ := given
  have notAllBlank : Text.isAllBlank name = false := by
    rw [Text.isAllBlank, List.all_eq_false]
    exact ⟨c, member, by simp [notBlank]⟩
  refine ⟨name, ?_⟩
  rw [requireNamespace, isName]
  simp only [notAllBlank]
  rfl

theorem requireNamespace_eq_error
    {settings : Settings}
    (absent : ¬settings.HasNamespace) :
    settings.requireNamespace = .error (.breach .missingNamespace) := by
  unfold requireNamespace
  split
  · next name isName =>
      split
      · rfl
      · next notAllBlank =>
          rw [Text.isAllBlank, Bool.not_eq_true, List.all_eq_false] at notAllBlank
          obtain ⟨c, member, notBlank⟩ := notAllBlank
          exact absurd ⟨name, isName, c, member, eq_false_of_ne_true notBlank⟩ absent
  · rfl

end Settings

variable {settings : Settings} {tree : Node} {analysis : Analysis}

/-- The file of an analyzed tree is generated if a namespace is given. -/
theorem exists_generate
    (distinct : tree.DistinctIds)
    (fits : tree.FitsSource settings.source)
    (analyzed : analyze settings.source tree = .ok analysis)
    (given : settings.HasNamespace) :
    ∃ text, generate settings analysis tree = .ok text := by
  obtain ⟨tag, preamble, _, walked, isFile, _⟩ := analyze_eq_ok analyzed
  subst isFile
  have parserFileSucceeds : ∃ file, Synthesis.parserFile settings analysis
      (.file tag preamble (walked.map (·.1))) = .ok file := by
    refine exists_bind_eq_ok (Settings.exists_requireNamespace given) fun _ => ?_
    refine exists_bind_eq_ok (exists_mapM_eq_ok fun node member => ?_) fun _ => ?_
    · exact Synthesis.exists_preambleLine (fits.child (List.mem_append_left _ member))
    refine exists_bind_eq_ok (exists_mapM_eq_ok fun node member => ?_) fun _ => ⟨_, rfl⟩
    have isChild := List.mem_append_right preamble member
    obtain ⟨grammar, outcome, found⟩ := Analysis.grammar?_eq_some distinct analyzed member
    refine Synthesis.exists_matcherClass (distinct.child isChild) (fits.child isChild)
      outcome found ?_
    intro definition isDefinition mention isMention
    have inFile := List.mem_flatMap.mpr ⟨node, member, isDefinition⟩
    exact Mention.isKnown_of_analyzed analyzed inFile isMention
  obtain ⟨file, succeeds⟩ := parserFileSucceeds
  exact ⟨file.text, map_eq_ok.mpr ⟨file, succeeds, rfl⟩⟩

/-- Nothing is generated without a namespace. -/
theorem generate_eq_missingNamespace
    (absent : ¬settings.HasNamespace) :
    generate settings analysis tree = .error (.breach .missingNamespace) := by
  rw [generate, Synthesis.parserFile, Settings.requireNamespace_eq_error absent]
  rfl

/-! ## Flattened trees -/

namespace Node

/-- The tree after some passes of flattening. -/
def flattenBy (passes : List Flattening) (tree : Node) : Node :=
  passes.foldl (fun tree pass => tree.flatten pass) tree

/-- What one pass keeps, all passes keep. -/
theorem flattenBy_induction
    {holds : Node → Prop}
    (kept : ∀ pass tree, holds tree → holds (flatten pass tree))
    (passes : List Flattening)
    {tree : Node}
    (start : holds tree) :
    holds (tree.flattenBy passes) := by
  induction passes generalizing tree with
  | nil => exact start
  | cons pass passes inductionHypothesis => exact inductionHypothesis (kept pass tree start)

end Node

/-- The file of an analyzed tree is generated after any passes of
flattening. -/
theorem exists_generate_flattenBy
    (distinct : tree.DistinctIds)
    (fits : tree.FitsSource settings.source)
    (analyzed : analyze settings.source tree = .ok analysis)
    (passes : List Flattening)
    (given : settings.HasNamespace) :
    ∃ text, generate settings analysis (tree.flattenBy passes) = .ok text := by
  have stillDistinct : (tree.flattenBy passes).DistinctIds :=
    Node.flattenBy_induction (fun pass _ kept => kept.flatten pass) passes distinct
  have stillFits : (tree.flattenBy passes).FitsSource settings.source :=
    Node.flattenBy_induction (fun pass _ kept => kept.flatten pass) passes fits
  have stillAnalyzed : analyze settings.source (tree.flattenBy passes) = .ok analysis :=
    Node.flattenBy_induction
      (fun pass node kept => (analyze_flatten_eq settings.source pass node).trans kept)
      passes analyzed
  exact exists_generate stillDistinct stillFits stillAnalyzed given

/-! ## Compilation -/

/-- A tree is compiled if its analysis succeeds and a namespace is given. -/
theorem exists_compile_iff
    (distinct : tree.DistinctIds)
    (fits : tree.FitsSource settings.source) :
    (∃ text, compile settings tree = .ok text) ↔
      (∃ analysis, analyze settings.source tree = .ok analysis) ∧ settings.HasNamespace := by
  constructor
  · rintro ⟨text, compiled⟩
    obtain ⟨analysis, analyzed, generated⟩ := bind_eq_ok.mp compiled
    refine ⟨⟨analysis, analyzed⟩, ?_⟩
    by_contra absent
    rw [generate_eq_missingNamespace absent] at generated
    cases generated
  · rintro ⟨⟨analysis, analyzed⟩, given⟩
    obtain ⟨text, generated⟩ :=
      exists_generate_flattenBy distinct fits analyzed [.ofAll] given
    exact ⟨text, bind_eq_ok.mpr ⟨analysis, analyzed, generated⟩⟩

/-- Compilation reports no breach but a missing namespace. -/
theorem eq_missingNamespace_of_compile
    (distinct : tree.DistinctIds)
    (fits : tree.FitsSource settings.source)
    {cause : Breach}
    (failed : compile settings tree = .error (.breach cause)) :
    cause = .missingNamespace := by
  cases analyzed : analyze settings.source tree with
  | error failure =>
      rw [compile, analyzed] at failed
      cases failed
      exact absurd analyzed (noBreach_analyze settings.source tree cause)
  | ok analysis =>
      have failedLater : generate settings analysis tree.optimize = .error (.breach cause) := by
        rwa [compile, analyzed] at failed
      by_cases given : settings.HasNamespace
      · obtain ⟨text, generated⟩ :=
          exists_generate_flattenBy distinct fits analyzed [.ofAll] given
        cases failedLater.symm.trans generated
      · cases failedLater.symm.trans (generate_eq_missingNamespace given)
        rfl

/-- Analysis is complete for synthesis.  After a successful analysis and any
passes of flattening, a file is generated if a namespace is given, and its
absence is reported if not.  Compilation therefore succeeds exactly if analysis
does and a namespace is given, and reports no other breach. -/
theorem analysis_complete_for_synthesis
    (settings : Settings)
    (tree : Node)
    (distinct : tree.DistinctIds)
    (fits : tree.FitsSource settings.source) :
    (∀ analysis, analyze settings.source tree = .ok analysis → ∀ passes,
      (settings.HasNamespace →
        ∃ text, generate settings analysis (tree.flattenBy passes) = .ok text) ∧
      (¬settings.HasNamespace →
        generate settings analysis (tree.flattenBy passes) =
          .error (.breach .missingNamespace))) ∧
    ((∃ text, compile settings tree = .ok text) ↔
      (∃ analysis, analyze settings.source tree = .ok analysis) ∧ settings.HasNamespace) ∧
    ∀ cause, compile settings tree = .error (.breach cause) → cause = .missingNamespace := by
  refine ⟨?_, exists_compile_iff distinct fits, ?_⟩
  · intro analysis analyzed passes
    exact ⟨exists_generate_flattenBy distinct fits analyzed passes, generate_eq_missingNamespace⟩
  · intro cause failed
    exact eq_missingNamespace_of_compile distinct fits failed

/-- Settings for a rule with a choice inside a choice. -/
def nestedSettings : Settings where
  source := "G<c, i> A = (x B | y) | B();"
  namespaceName? := some "N"

/-- The tree of the source of `nestedSettings`. -/
def nestedTree : Node :=
  .file ⟨0, ⟨0, 28⟩, {}⟩ []
    [.grammar ⟨1, ⟨0, 28⟩, {}⟩
      (.declaration ⟨2, ⟨0, 7⟩, {}⟩
        (.genericName ⟨3, ⟨0, 7⟩, {}⟩ (.code ⟨4, ⟨0, 1⟩, {}⟩)
          [.code ⟨5, ⟨2, 3⟩, {}⟩, .code ⟨6, ⟨5, 6⟩, {}⟩]) none)
      [.rule ⟨7, ⟨8, 28⟩, {}⟩ false (.code ⟨8, ⟨8, 9⟩, {}⟩) none
        (.choice ⟨9, ⟨12, 27⟩, {}⟩
          [.choice ⟨10, ⟨13, 20⟩, {}⟩
            [.sequence ⟨11, ⟨13, 16⟩, {}⟩
              [.identifier ⟨12, ⟨13, 14⟩, {}⟩, .identifier ⟨13, ⟨15, 16⟩, {}⟩],
              .identifier ⟨14, ⟨19, 20⟩, {}⟩],
            .call ⟨15, ⟨24, 27⟩, {}⟩ (.code ⟨16, ⟨24, 25⟩, {}⟩) []])]]

theorem compile_nestedTree :
    nestedTree.DistinctIds ∧ nestedTree.FitsSource nestedSettings.source ∧
      ∃ text, compile nestedSettings nestedTree = .ok text := by
  have distinct : nestedTree.DistinctIds := by decide
  have fits : nestedTree.FitsSource nestedSettings.source := by decide
  have given : nestedSettings.HasNamespace := ⟨"N", rfl, 'N', by decide, by decide⟩
  have succeeds : (analyze nestedSettings.source nestedTree).toOption.isSome = true := by decide
  have analyzed : ∃ analysis, analyze nestedSettings.source nestedTree = .ok analysis := by
    cases result : analyze nestedSettings.source nestedTree with
    | error failure =>
        rw [result] at succeeds
        cases succeeds
    | ok analysis => exact ⟨analysis, rfl⟩
  obtain ⟨_, compiles, _⟩ :=
    analysis_complete_for_synthesis nestedSettings nestedTree distinct fits
  exact ⟨distinct, fits, compiles.mpr ⟨analyzed, given⟩⟩

end GrammarCompiler
