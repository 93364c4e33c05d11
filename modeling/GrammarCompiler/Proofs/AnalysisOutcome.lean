import GrammarCompiler.Analysis.Analyzer
import GrammarCompiler.Proofs.Reading
import GrammarCompiler.Proofs.Tables

/-!
# What a successful analysis holds

A successful analysis is described by the definitions of the file alone: all of
them can be read, the rule names are those they make known, and the tables hold
one entry for each occurrence in them.
-/

namespace GrammarCompiler

namespace Definition

/-- The entry of a definition in a rule table. -/
def alternative (source : String) (definition : Definition) : Alternative where
  ruleId := definition.id
  isOverride := definition.isOverride
  scope := definition.occurrenceScope source

/-- The qualified names in a definition, which are rule names. -/
def qualifiedNames (source : String) (definition : Definition) : List String :=
  (definition.occurrences source).filterMap Occurrence.ruleName?

end Definition

namespace Node

/-- The definitions in the body of a grammar. -/
def grammarDefinitions : Node → List Definition
  | grammar _ _ body => definitionsAll body
  | _ => []

/-- The definitions in the grammars of a file. -/
def fileDefinitions : Node → List Definition
  | file _ _ grammars => grammars.flatMap grammarDefinitions
  | _ => []

/-- The rule names that a grammar makes known: the names of its definitions and
the qualified names in them. -/
def knownNames (source : String) (node : Node) : List String :=
  node.grammarDefinitions.map (·.ruleName source) ++
    node.grammarDefinitions.flatMap (·.qualifiedNames source)

end Node

namespace Analyzer

/-! ## One grammar -/

/-- The rule table of a grammar whose names were read. -/
theorem ruleTable_eq_ok
    {source : String}
    {definitions : List Definition}
    {names : List String}
    {rules : RuleTable}
    (succeeds : ruleTable source definitions names = .ok rules) :
    (∀ definition ∈ definitions, ∀ mention ∈ definition.mentions,
        mention.IsReadable source) ∧
      rules = .ofDefinitions (names.zip (definitions.map (·.alternative source))) := by
  unfold ruleTable at succeeds
  obtain ⟨scopes, scopesRead, result⟩ := bind_eq_ok.mp succeeds
  have agrees (definition : Definition) (scope : Scope)
      (read : definition.scope source = .ok scope) :
      scope = definition.occurrenceScope source :=
    (Definition.scope_eq_ok_iff.mp read).2
  obtain ⟨each, rfl⟩ := (mapM_eq_ok_iff agrees).mp scopesRead
  refine ⟨?_, ?_⟩
  · intro definition member
    obtain ⟨scope, read⟩ := each definition member
    exact (Definition.scope_eq_ok_iff.mp read).1
  · cases result
    rw [List.zipWith_map_right, List.zipWith_self]
    rfl

/-- What the walk of a grammar gives. -/
structure GrammarOutcome
    (source : String)
    (node : Node)
    (grammar : GrammarAnalysis) : Prop where
  declared : ∃ tag header body, node = .grammar tag header body ∧
    Declaration.ofNode source header = .ok grammar.declaration
  nodeId : grammar.nodeId = node.id
  readable : ∀ definition ∈ node.grammarDefinitions, definition.IsReadable source
  rules : grammar.rules = .ofDefinitions (node.grammarDefinitions.map fun definition =>
    (definition.ruleName source, definition.alternative source))

/-- A walk of one grammar that succeeds reads its definitions and makes their
names known. -/
theorem walkGrammar_eq_ok
    {source : String}
    {known : NameSet}
    {node : Node}
    {ruleNames : NameSet}
    {grammar : GrammarAnalysis}
    (succeeds : walkGrammar source known node = (ruleNames, .ok grammar)) :
    GrammarOutcome source node grammar ∧
      ruleNames = known.insertAll (node.knownNames source) := by
  cases node with
  | grammar tag header body =>
      simp only [walkGrammar] at succeeds
      split at succeeds
      · cases succeeds
      · next declaration declared =>
          split at succeeds
          · cases succeeds
          · next names namesRead =>
              obtain ⟨knownEq, tableRead⟩ := Prod.mk.inj succeeds
              obtain ⟨rules, rulesRead, rfl⟩ := map_eq_ok.mp tableRead
              obtain ⟨mentionsReadable, rfl⟩ := ruleTable_eq_ok rulesRead
              obtain ⟨namesReadable, rfl⟩ :=
                (mapM_eq_ok_iff fun _ _ => Tag.eq_trimmedText_of_readTrimmed).mp namesRead
              refine ⟨⟨⟨tag, header, body, rfl, declared⟩, rfl, ?_, ?_⟩, ?_⟩
              · intro definition member
                exact ⟨namesReadable definition member, mentionsReadable definition member⟩
              · exact congrArg RuleTable.ofDefinitions List.zip_map'
              · rw [← knownEq, namesMadeKnown,
                  Definition.readable_flatMap_mentions mentionsReadable,
                  List.filterMap_flatMap]
                rfl
  | _ => cases (Prod.mk.inj succeeds).2

/-- A grammar that can be read is walked, whatever names are known before. -/
theorem exists_walkGrammar
    {source : String}
    {node : Node}
    {grammar : GrammarAnalysis}
    (outcome : GrammarOutcome source node grammar)
    (known : NameSet) :
    ∃ ruleNames walked, walkGrammar source known node = (ruleNames, .ok walked) := by
  obtain ⟨tag, header, body, rfl, declared⟩ := outcome.declared
  have namesReadable : ∃ names, definitionNames source (Node.definitionsAll body) = .ok names :=
    exists_mapM_eq_ok fun definition member => (outcome.readable definition member).name
  have scopesReadable : ∃ scopes,
      (Node.definitionsAll body).mapM (Definition.scope source) = .ok scopes :=
    exists_mapM_eq_ok fun definition member =>
      ⟨_, Definition.scope_eq_ok_iff.mpr ⟨(outcome.readable definition member).mentions, rfl⟩⟩
  obtain ⟨names, namesRead⟩ := namesReadable
  obtain ⟨scopes, scopesRead⟩ := scopesReadable
  simp only [walkGrammar, declared, namesRead, ruleTable, scopesRead]
  exact ⟨_, _, rfl⟩

/-! ## All grammars of a file -/

/-- A walk of grammars that succeeds adds the outcome of each of them. -/
theorem walkGrammars_eq_none
    {source : String}
    {analyzer final : Analyzer}
    {nodes : List Node}
    (succeeds : walkGrammars source analyzer nodes = (final, none)) :
    ∃ walked : List (Node × GrammarAnalysis),
      nodes = walked.map (·.1) ∧
      (∀ step ∈ walked, GrammarOutcome source step.1 step.2) ∧
      final =
        { ruleNames := analyzer.ruleNames.insertAll (nodes.flatMap (·.knownNames source))
          grammars := analyzer.grammars ++ walked.map (·.2)
          imports := analyzer.imports } := by
  induction nodes generalizing analyzer with
  | nil =>
      cases succeeds
      exact ⟨[], rfl, nofun, by simp [NameSet.insertAll]⟩
  | cons node nodes inductionHypothesis =>
      unfold walkGrammars at succeeds
      split at succeeds
      · next ruleNames grammar walkedOne =>
          obtain ⟨outcome, rfl⟩ := walkGrammar_eq_ok walkedOne
          obtain ⟨walked, rfl, outcomes, rfl⟩ := inductionHypothesis succeeds
          refine ⟨(node, grammar) :: walked, rfl, ?_, ?_⟩
          · exact List.forall_mem_cons.mpr ⟨outcome, outcomes⟩
          · simp [NameSet.insertAll_append]
      · cases succeeds

/-- Grammars that can all be read are walked to the end. -/
theorem exists_walkGrammars
    {source : String}
    {nodes : List Node}
    (each : ∀ node ∈ nodes, ∃ grammar, GrammarOutcome source node grammar)
    (analyzer : Analyzer) :
    ∃ final, walkGrammars source analyzer nodes = (final, none) := by
  induction nodes generalizing analyzer with
  | nil => exact ⟨analyzer, rfl⟩
  | cons node nodes inductionHypothesis =>
      obtain ⟨⟨grammar, outcome⟩, others⟩ := List.forall_mem_cons.mp each
      obtain ⟨ruleNames, walked, walkedOne⟩ := exists_walkGrammar outcome analyzer.ruleNames
      rw [walkGrammars, walkedOne]
      exact inductionHypothesis others _

end Analyzer

/-- The parts of a successful analysis. -/
theorem analyze_eq_ok
    {source : String}
    {tree : Node}
    {analysis : Analysis}
    (analyzed : analyze source tree = .ok analysis) :
    ∃ tag preamble imported, ∃ walked : List (Node × GrammarAnalysis),
      tree = .file tag preamble (walked.map (·.1)) ∧
      Analyzer.importedBy source preamble = .ok imported ∧
      (∀ step ∈ walked, Analyzer.GrammarOutcome source step.1 step.2) ∧
      analysis = Analyzer.finish
        { ruleNames := .ofList ((walked.map (·.1)).flatMap (·.knownNames source))
          grammars := walked.map (·.2)
          imports := Analyzer.missingImports imported } := by
  unfold analyze at analyzed
  split at analyzed
  · next final succeeds =>
      cases tree with
      | file tag preamble grammars =>
          simp only [Analyzer.analyze] at succeeds
          split at succeeds
          · cases succeeds
          · next imported importsRead =>
              obtain ⟨walked, rfl, outcomes, rfl⟩ := Analyzer.walkGrammars_eq_none succeeds
              cases analyzed
              exact ⟨tag, preamble, imported, walked, rfl, importsRead, outcomes, rfl⟩
      | _ => cases succeeds
  · cases analyzed

/-- A file is analyzed if its imports and all its grammars can be read. -/
theorem exists_analyze_iff
    {source : String}
    {tag : Tag}
    {preamble grammars : List Node} :
    (∃ analysis, analyze source (.file tag preamble grammars) = .ok analysis) ↔
      (∃ imported, Analyzer.importedBy source preamble = .ok imported) ∧
        ∀ node ∈ grammars, ∃ grammar, Analyzer.GrammarOutcome source node grammar := by
  constructor
  · rintro ⟨analysis, analyzed⟩
    obtain ⟨_, _, imported, walked, isFile, importsRead, outcomes, _⟩ := analyze_eq_ok analyzed
    cases isFile
    refine ⟨⟨imported, importsRead⟩, ?_⟩
    exact List.forall_mem_map.mpr fun step isStep => ⟨step.2, outcomes step isStep⟩
  · rintro ⟨⟨imported, importsRead⟩, each⟩
    obtain ⟨final, walked⟩ := Analyzer.exists_walkGrammars each
      { imports := Analyzer.missingImports imported }
    refine ⟨final.finish, ?_⟩
    simp only [analyze, Analyzer.analyze, importsRead, walked]

namespace Analysis

variable {source : String} {tree : Node} {analysis : Analysis}

/-- All definitions of an analyzed file can be read. -/
theorem isReadable_of_mem_fileDefinitions
    (analyzed : analyze source tree = .ok analysis)
    {definition : Definition}
    (member : definition ∈ tree.fileDefinitions) :
    definition.IsReadable source := by
  obtain ⟨tag, preamble, imported, walked, rfl, _, outcomes, rfl⟩ := analyze_eq_ok analyzed
  obtain ⟨node, isGrammar, inGrammar⟩ := List.mem_flatMap.mp member
  obtain ⟨step, isStep, rfl⟩ := List.mem_map.mp isGrammar
  exact (outcomes step isStep).readable definition inGrammar

/-- The rule names of an analyzed file are the names of its definitions and the
qualified names in them. -/
theorem mem_ruleNames_iff
    (analyzed : analyze source tree = .ok analysis)
    {name : String} :
    name ∈ analysis.ruleNames ↔
      ∃ definition ∈ tree.fileDefinitions,
        definition.ruleName source = name ∨ name ∈ definition.qualifiedNames source := by
  obtain ⟨tag, preamble, imported, walked, rfl, _, outcomes, rfl⟩ := analyze_eq_ok analyzed
  simp only [Analyzer.finish, NameSet.mem_ofList, Node.fileDefinitions, List.mem_flatMap,
    Node.knownNames, List.mem_append, List.mem_map]
  constructor
  · rintro ⟨node, isGrammar, ⟨definition, member, same⟩ | ⟨definition, member, qualified⟩⟩
    · exact ⟨definition, ⟨node, isGrammar, member⟩, .inl same⟩
    · exact ⟨definition, ⟨node, isGrammar, member⟩, .inr qualified⟩
  · rintro ⟨definition, ⟨node, isGrammar, member⟩, same | qualified⟩
    · exact ⟨node, isGrammar, .inl ⟨definition, member, same⟩⟩
    · exact ⟨node, isGrammar, .inr ⟨definition, member, qualified⟩⟩

/-- More definitions make more rule names known. -/
theorem ruleNames_subset
    (analyzed : analyze source tree = .ok analysis)
    {tree' : Node}
    {analysis' : Analysis}
    (analyzed' : analyze source tree' = .ok analysis')
    (kept : tree.fileDefinitions ⊆ tree'.fileDefinitions)
    {name : String}
    (isRule : name ∈ analysis.ruleNames) :
    name ∈ analysis'.ruleNames := by
  obtain ⟨definition, isDefinition, named⟩ := (mem_ruleNames_iff analyzed).mp isRule
  exact (mem_ruleNames_iff analyzed').mpr ⟨definition, kept isDefinition, named⟩

/-- The scopes in the outcome of a grammar are those of its definitions. -/
theorem mem_scopes_iff
    {node : Node}
    {grammar : GrammarAnalysis}
    (outcome : Analyzer.GrammarOutcome source node grammar)
    {scope : Scope} :
    scope ∈ grammar.scopes ↔
      ∃ definition ∈ node.grammarDefinitions, definition.occurrenceScope source = scope := by
  rw [GrammarAnalysis.scopes, outcome.rules]
  simp only [List.mem_flatMap, List.mem_map]
  constructor
  · rintro ⟨set, isSet, alternative, member, rfl⟩
    obtain ⟨name, isNamed⟩ := RuleTable.mem_alternatives_iff.mp ⟨set, isSet, member⟩
    obtain ⟨definition, isDefinition, same⟩ := List.mem_map.mp isNamed
    cases same
    exact ⟨definition, isDefinition, rfl⟩
  · rintro ⟨definition, isDefinition, rfl⟩
    have isNamed : (definition.ruleName source, definition.alternative source) ∈
        node.grammarDefinitions.map fun definition =>
          (definition.ruleName source, definition.alternative source) :=
      List.mem_map.mpr ⟨definition, isDefinition, rfl⟩
    obtain ⟨set, isSet, member⟩ := RuleTable.mem_alternatives_iff.mpr ⟨_, isNamed⟩
    exact ⟨set, isSet, _, member, rfl⟩

/-- The entries that scopes contribute to a table of an analyzed file come from
its definitions. -/
theorem mem_flatMap_scopes_iff
    {walked : List (Node × GrammarAnalysis)}
    (outcomes : ∀ step ∈ walked, Analyzer.GrammarOutcome source step.1 step.2)
    {entries : Scope → List α}
    {entry : α} :
    entry ∈ ((walked.map (·.2)).flatMap (·.scopes)).flatMap entries ↔
      ∃ definition ∈ (walked.map (·.1)).flatMap Node.grammarDefinitions,
        entry ∈ entries (definition.occurrenceScope source) := by
  simp only [List.mem_flatMap, List.mem_map]
  constructor
  · rintro ⟨scope, ⟨_, ⟨step, isStep, rfl⟩, inScopes⟩, member⟩
    obtain ⟨definition, isDefinition, rfl⟩ := (mem_scopes_iff (outcomes step isStep)).mp inScopes
    exact ⟨definition, ⟨step.1, ⟨step, isStep, rfl⟩, isDefinition⟩, member⟩
  · rintro ⟨definition, ⟨_, ⟨step, isStep, rfl⟩, isDefinition⟩, member⟩
    have inScopes := (mem_scopes_iff (outcomes step isStep)).mpr ⟨definition, isDefinition, rfl⟩
    exact ⟨_, ⟨step.2, ⟨step, isStep, rfl⟩, inScopes⟩, member⟩

theorem mem_resolutions_iff
    (analyzed : analyze source tree = .ok analysis)
    {entry : Nat × Resolution} :
    entry ∈ analysis.resolutions ↔
      ∃ definition ∈ tree.fileDefinitions,
        entry ∈ (definition.occurrenceScope source).resolutions analysis.ruleNames := by
  obtain ⟨tag, preamble, imported, walked, rfl, _, outcomes, rfl⟩ := analyze_eq_ok analyzed
  exact mem_flatMap_scopes_iff outcomes

theorem mem_arguments_iff
    (analyzed : analyze source tree = .ok analysis)
    {entry : Nat × ArgumentKind} :
    entry ∈ analysis.arguments ↔
      ∃ definition ∈ tree.fileDefinitions,
        entry ∈ (definition.occurrenceScope source).argumentKinds analysis.ruleNames := by
  obtain ⟨tag, preamble, imported, walked, rfl, _, outcomes, rfl⟩ := analyze_eq_ok analyzed
  exact mem_flatMap_scopes_iff outcomes

end Analysis
end GrammarCompiler
