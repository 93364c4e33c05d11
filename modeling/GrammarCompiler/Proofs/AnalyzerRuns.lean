import GrammarCompiler.Proofs.FileExtension
import Mathlib.Data.List.TakeWhile

/-!
# One analyzer over many files

An analyzer that walks tree after tree collects their grammars, whether the walks
succeed or fail.  A failure costs the grammar that fails and those after it in the
same file; the rule names that were registered before it stay.  The step lemma says
what one walk adds to an analyzer, and the run lemma adds up the steps by induction
over the trees.
-/

namespace GrammarCompiler

/-! ## What a walk can read -/

/-- Whether a step succeeds can be found out by taking it. -/
instance decidableExistsOk (step : Except ε α) : Decidable (∃ value, step = .ok value) :=
  match step with
  | .ok value => .isTrue ⟨value, rfl⟩
  | .error _ => .isFalse nofun

instance (source : String) (definition : Definition) :
    Decidable (definition.IsReadable source) :=
  decidable_of_iff
    ((∃ name, definition.name.readTrimmed source = .ok name) ∧
      ∀ mention ∈ definition.mentions, ∃ occurrence, mention.read source = .ok occurrence)
    ⟨fun ⟨name, mentions⟩ => ⟨name, mentions⟩, fun readable => ⟨readable.name, readable.mentions⟩⟩

namespace Node

/-- A grammar with a declaration and definitions that can all be read. -/
def IsAnalyzable (source : String) : Node → Prop
  | grammar _ header body =>
      (∃ declaration, Declaration.ofNode source header = .ok declaration) ∧
        ∀ definition ∈ definitionsAll body, definition.IsReadable source
  | _ => False

instance (source : String) : (node : Node) → Decidable (node.IsAnalyzable source)
  | grammar _ header body =>
      inferInstanceAs (Decidable (
        (∃ declaration, Declaration.ofNode source header = .ok declaration) ∧
          ∀ definition ∈ definitionsAll body, definition.IsReadable source))
  | file _ _ _ | usingDirective _ _ | comment _ | declaration _ _ _ | genericName _ _ _
  | code _ | rule _ _ _ _ _ | literal _ | identifier _ | call _ _ _ | any _ | unary _ _ _
  | binding _ _ _ | condition _ _ _ | action _ _ _ | sequence _ _ | choice _ _ | fail _ _ =>
      .isFalse nofun

/-- The rule names that the walk of a grammar registers: once the declaration and
the names of all definitions are read, those names, and then the qualified names
up to the first mention that fails. -/
def registeredNames (source : String) : Node → List String
  | grammar _ header body =>
      if (∃ declaration, Declaration.ofNode source header = .ok declaration) ∧
          ∀ definition ∈ definitionsAll body,
            ∃ name, definition.name.readTrimmed source = .ok name then
        (definitionsAll body).map (·.ruleName source) ++
          (Mention.readable source ((definitionsAll body).flatMap (·.mentions))).filterMap
            Occurrence.ruleName?
      else []
  | _ => []

/-- The grammars of a file; another tree has none. -/
def grammars : Node → List Node
  | file _ _ grammars => grammars
  | _ => []

/-- The directives that a file needs, if its preamble can be read. -/
def neededImports? (source : String) : Node → Option (List String)
  | file _ preamble _ =>
      (Analyzer.importedBy source preamble).toOption.map Analyzer.missingImports
  | _ => none

/-- The grammars of a file before the first that fails. -/
def keptGrammars (source : String) (tree : Node) : List Node :=
  if (tree.neededImports? source).isSome then
    tree.grammars.takeWhile (·.IsAnalyzable source)
  else []

/-- The grammars of a file up to and with the first that fails. -/
def walkedGrammars (source : String) (tree : Node) : List Node :=
  if (tree.neededImports? source).isSome then
    tree.grammars.take ((tree.grammars.takeWhile (·.IsAnalyzable source)).length + 1)
  else []

/-- A file of which nothing fails. -/
def IsAnalyzableFile (source : String) (tree : Node) : Prop :=
  (tree.neededImports? source).isSome = true ∧
    ∀ node ∈ tree.grammars, node.IsAnalyzable source

theorem isAnalyzable_iff
    {source : String}
    {node : Node} :
    node.IsAnalyzable source ↔ ∃ grammar, Analyzer.GrammarOutcome source node grammar := by
  constructor
  · intro analyzable
    cases node with
    | grammar tag header body =>
        obtain ⟨⟨declaration, declared⟩, readable⟩ := analyzable
        exact ⟨{ nodeId := tag.id, declaration, rules := _ },
          ⟨tag, header, body, rfl, declared⟩, rfl, readable, rfl⟩
    | _ => cases analyzable
  · rintro ⟨grammar, outcome⟩
    obtain ⟨tag, header, body, rfl, declared⟩ := outcome.declared
    exact ⟨⟨_, declared⟩, outcome.readable⟩

theorem IsAnalyzableFile.keptGrammars_eq
    {source : String}
    {tree : Node}
    (analyzable : tree.IsAnalyzableFile source) :
    tree.keptGrammars source = tree.grammars := by
  rw [keptGrammars, if_pos analyzable.1, List.takeWhile_eq_self_iff]
  intro node member
  exact decide_eq_true (analyzable.2 node member)

theorem IsAnalyzableFile.walkedGrammars_eq
    {source : String}
    {tree : Node}
    (analyzable : tree.IsAnalyzableFile source) :
    tree.walkedGrammars source = tree.grammars := by
  have allKept := analyzable.keptGrammars_eq
  rw [keptGrammars, if_pos analyzable.1] at allKept
  rw [walkedGrammars, if_pos analyzable.1, allKept, List.take_of_length_le (Nat.le_succ _)]

end Node

/-! ## One walk -/

namespace Analyzer

theorem fst_walkGrammar
    (source : String)
    (known : NameSet)
    (node : Node) :
    (walkGrammar source known node).1 = known.insertAll (node.registeredNames source) := by
  cases node with
  | grammar tag header body =>
      rw [walkGrammar, Node.registeredNames]
      cases declared : Declaration.ofNode source header with
      | error failure =>
          rw [if_neg]
          · rfl
          · intro readable
            obtain ⟨declaration, same⟩ := readable.1
            cases same
      | ok declaration =>
          simp only [Except.ok.injEq, exists_eq', true_and]
          split
          · next failure namesFail =>
              rw [if_neg]
              · rfl
              · intro each
                obtain ⟨names, namesRead⟩ := exists_mapM_eq_ok each
                cases namesFail.symm.trans namesRead
          · next names namesRead =>
              obtain ⟨each, rfl⟩ :=
                (mapM_eq_ok_iff fun _ _ => Tag.eq_trimmedText_of_readTrimmed).mp namesRead
              rw [if_pos each]
              rfl
  | _ => rfl

theorem exists_walkGrammar_eq_ok
    {source : String}
    {node : Node}
    (analyzable : node.IsAnalyzable source)
    (known : NameSet) :
    ∃ grammar, GrammarOutcome source node grammar ∧
      walkGrammar source known node =
        (known.insertAll (node.registeredNames source), .ok grammar) := by
  obtain ⟨_, outcome⟩ := Node.isAnalyzable_iff.mp analyzable
  obtain ⟨ruleNames, grammar, walked⟩ := exists_walkGrammar outcome known
  refine ⟨grammar, (walkGrammar_eq_ok walked).1, ?_⟩
  rw [← fst_walkGrammar, walked]

theorem exists_walkGrammar_eq_error
    {source : String}
    {node : Node}
    (notAnalyzable : ¬node.IsAnalyzable source)
    (known : NameSet) :
    ∃ failure, walkGrammar source known node =
      (known.insertAll (node.registeredNames source), .error failure) := by
  cases walked : (walkGrammar source known node).2 with
  | error failure =>
      exact ⟨failure, Prod.ext (fst_walkGrammar source known node) walked⟩
  | ok grammar =>
      have outcome := (walkGrammar_eq_ok (Prod.ext rfl walked)).1
      exact absurd (Node.isAnalyzable_iff.mpr ⟨grammar, outcome⟩) notAnalyzable

/-- An analyzer after some trees: their kept grammars are added, the names that
their walks registered, and the directives that the last file needs. -/
structure AddsTrees
    (source : String)
    (before : Analyzer)
    (kept : List Node)
    (registered : List String)
    (imports : List String)
    (after : Analyzer) : Prop where
  grammars : ∃ walked : List (Node × GrammarAnalysis),
    kept = walked.map (·.1) ∧
    (∀ step ∈ walked, GrammarOutcome source step.1 step.2) ∧
    after.grammars = before.grammars ++ walked.map (·.2)
  ruleNames : after.ruleNames = before.ruleNames.insertAll registered
  imports : after.imports = imports

theorem addsTrees_walkGrammars
    (source : String)
    (analyzer : Analyzer)
    (nodes : List Node) :
    AddsTrees source analyzer
      (nodes.takeWhile (·.IsAnalyzable source))
      ((nodes.take ((nodes.takeWhile (·.IsAnalyzable source)).length + 1)).flatMap
        (·.registeredNames source))
      analyzer.imports
      (walkGrammars source analyzer nodes).1 := by
  induction nodes generalizing analyzer with
  | nil => exact ⟨⟨[], rfl, nofun, (List.append_nil _).symm⟩, rfl, rfl⟩
  | cons node nodes inductionHypothesis =>
      by_cases analyzable : node.IsAnalyzable source
      · obtain ⟨grammar, outcome, walkedOne⟩ :=
          exists_walkGrammar_eq_ok analyzable analyzer.ruleNames
        rw [walkGrammars, walkedOne]
        obtain ⟨⟨walked, kept, outcomes, grammars⟩, ruleNames, imports⟩ := inductionHypothesis
          { analyzer with
            ruleNames := analyzer.ruleNames.insertAll (node.registeredNames source)
            grammars := analyzer.grammars ++ [grammar] }
        rw [List.takeWhile_cons, if_pos (decide_eq_true analyzable)]
        refine ⟨⟨(node, grammar) :: walked, ?_, ?_, ?_⟩, ?_, imports⟩
        · rw [kept, List.map_cons]
        · exact List.forall_mem_cons.mpr ⟨outcome, outcomes⟩
        · rw [grammars, List.append_assoc, List.singleton_append, List.map_cons]
        · rw [ruleNames, List.length_cons, List.take_succ_cons, List.flatMap_cons,
            NameSet.insertAll_append]
      · obtain ⟨failure, walkedOne⟩ := exists_walkGrammar_eq_error analyzable analyzer.ruleNames
        rw [walkGrammars, walkedOne, List.takeWhile_cons, if_neg (by rwa [decide_eq_true_eq])]
        refine ⟨⟨[], rfl, nofun, (List.append_nil _).symm⟩, ?_, rfl⟩
        rw [List.length_nil, List.take_succ_cons, List.take_zero, List.flatMap_singleton]

theorem snd_walkGrammars_eq_none_iff
    (source : String)
    (analyzer : Analyzer)
    (nodes : List Node) :
    (walkGrammars source analyzer nodes).2 = none ↔
      ∀ node ∈ nodes, node.IsAnalyzable source := by
  constructor
  · intro succeeds
    obtain ⟨walked, rfl, outcomes, -⟩ := walkGrammars_eq_none (Prod.ext rfl succeeds)
    refine List.forall_mem_map.mpr fun step isStep => ?_
    exact Node.isAnalyzable_iff.mpr ⟨step.2, outcomes step isStep⟩
  · intro each
    obtain ⟨final, walked⟩ :=
      exists_walkGrammars (fun node member => Node.isAnalyzable_iff.mp (each node member)) analyzer
    rw [walked]

/-- What one walk adds to an analyzer. -/
theorem addsTrees_analyze
    (source : String)
    (analyzer : Analyzer)
    (tree : Node) :
    AddsTrees source analyzer (tree.keptGrammars source)
      ((tree.walkedGrammars source).flatMap (·.registeredNames source))
      ((tree.neededImports? source).getD analyzer.imports)
      (analyzer.analyze source tree).1 := by
  have unchanged : AddsTrees source analyzer [] [] analyzer.imports analyzer :=
    ⟨⟨[], rfl, nofun, (List.append_nil _).symm⟩, rfl, rfl⟩
  cases tree with
  | file tag preamble grammars =>
      rw [analyze]
      cases imported : importedBy source preamble with
      | error failure =>
          simpa [Node.keptGrammars, Node.walkedGrammars, Node.neededImports?, imported,
            Except.toOption] using unchanged
      | ok names =>
          have added := addsTrees_walkGrammars source
            { analyzer with imports := missingImports names } grammars
          simpa [Node.keptGrammars, Node.walkedGrammars, Node.neededImports?, imported,
            Except.toOption, Node.grammars] using
            (⟨added.grammars, added.ruleNames, added.imports⟩ :
              AddsTrees source analyzer _ _ (missingImports names) _)
  | _ => exact unchanged

/-- A walk succeeds if and only if nothing of the file fails. -/
theorem snd_analyze_eq_none_iff
    (source : String)
    (analyzer : Analyzer)
    (tree : Node) :
    (analyzer.analyze source tree).2 = none ↔ tree.IsAnalyzableFile source := by
  cases tree with
  | file tag preamble grammars =>
      rw [analyze]
      cases imported : importedBy source preamble with
      | error failure =>
          simp [Node.IsAnalyzableFile, Node.neededImports?, imported, Except.toOption]
      | ok names =>
          simp [Node.IsAnalyzableFile, Node.neededImports?, imported, Except.toOption,
            Node.grammars, snd_walkGrammars_eq_none_iff]
  | _ => simp [analyze, Node.IsAnalyzableFile, Node.neededImports?]

/-! ## Many walks -/

/-- Walk trees one after the other, whatever their outcomes. -/
def analyzeAll (source : String) (analyzer : Analyzer) :
    List Node → Analyzer × List (Option Failure)
  | [] => (analyzer, [])
  | tree :: trees =>
      let (next, outcome) := analyzer.analyze source tree
      let (final, outcomes) := analyzeAll source next trees
      (final, outcome :: outcomes)

theorem fst_analyzeAll_cons
    (source : String)
    (analyzer : Analyzer)
    (tree : Node)
    (trees : List Node) :
    (analyzeAll source analyzer (tree :: trees)).1 =
      (analyzeAll source (analyzer.analyze source tree).1 trees).1 := rfl

theorem fst_analyzeAll_append
    (source : String)
    (analyzer : Analyzer)
    (before after : List Node) :
    (analyzeAll source analyzer (before ++ after)).1 =
      (analyzeAll source (analyzeAll source analyzer before).1 after).1 := by
  induction before generalizing analyzer with
  | nil => rfl
  | cons tree trees inductionHypothesis => exact inductionHypothesis _

/-- What a run adds to an analyzer. -/
theorem addsTrees_analyzeAll
    (source : String)
    (analyzer : Analyzer)
    (trees : List Node) :
    AddsTrees source analyzer
      (trees.flatMap (·.keptGrammars source))
      ((trees.flatMap (·.walkedGrammars source)).flatMap (·.registeredNames source))
      (trees.foldl (fun imports tree => (tree.neededImports? source).getD imports)
        analyzer.imports)
      (analyzeAll source analyzer trees).1 := by
  induction trees generalizing analyzer with
  | nil => exact ⟨⟨[], rfl, nofun, (List.append_nil _).symm⟩, rfl, rfl⟩
  | cons tree trees inductionHypothesis =>
      obtain ⟨⟨walked, kept, outcomes, grammars⟩, ruleNames, imports⟩ :=
        addsTrees_analyze source analyzer tree
      obtain ⟨⟨walked', kept', outcomes', grammars'⟩, ruleNames', imports'⟩ :=
        inductionHypothesis (analyzer.analyze source tree).1
      rw [fst_analyzeAll_cons]
      refine ⟨⟨walked ++ walked', ?_, ?_, ?_⟩, ?_, ?_⟩
      · rw [List.flatMap_cons, kept, kept', List.map_append]
      · exact List.forall_mem_append.mpr ⟨outcomes, outcomes'⟩
      · rw [grammars', grammars, List.map_append, List.append_assoc]
      · rw [ruleNames', ruleNames, List.flatMap_cons, List.flatMap_append,
          NameSet.insertAll_append]
      · rw [imports', imports, List.foldl_cons]

theorem forall₂_outcomes
    (source : String)
    (analyzer : Analyzer)
    (trees : List Node) :
    List.Forall₂ (fun tree outcome => outcome = none ↔ tree.IsAnalyzableFile source)
      trees (analyzeAll source analyzer trees).2 := by
  induction trees generalizing analyzer with
  | nil => exact .nil
  | cons tree trees inductionHypothesis =>
      exact .cons (snd_analyze_eq_none_iff source analyzer tree) (inductionHypothesis _)

/-- Grammars are walked to one outcome each. -/
theorem GrammarOutcome.unique_map
    {source : String}
    {walked walked' : List (Node × GrammarAnalysis)}
    (outcomes : ∀ step ∈ walked, GrammarOutcome source step.1 step.2)
    (outcomes' : ∀ step ∈ walked', GrammarOutcome source step.1 step.2)
    (same : walked.map (·.1) = walked'.map (·.1)) :
    walked = walked' := by
  induction walked generalizing walked' with
  | nil => exact (List.map_eq_nil_iff.mp same.symm).symm
  | cons step walked inductionHypothesis =>
      cases walked' with
      | nil => cases same
      | cons step' walked' =>
          obtain ⟨outcome, others⟩ := List.forall_mem_cons.mp outcomes
          obtain ⟨outcome', others'⟩ := List.forall_mem_cons.mp outcomes'
          rw [List.map_cons, List.map_cons, List.cons.injEq] at same
          obtain ⟨sameNode, sameNodes⟩ := same
          rw [← sameNode] at outcome'
          have sameStep : step = step' := Prod.ext sameNode (outcome.unique outcome')
          rw [sameStep, inductionHypothesis others others' sameNodes]

/-- What is added to an analyzer settles it. -/
theorem AddsTrees.unique
    {source : String}
    {before after after' : Analyzer}
    {kept : List Node}
    {registered imports : List String}
    (adds : AddsTrees source before kept registered imports after)
    (adds' : AddsTrees source before kept registered imports after') :
    after = after' := by
  obtain ⟨⟨walked, isKept, outcomes, grammars⟩, ruleNames, imports⟩ := adds
  obtain ⟨⟨walked', isKept', outcomes', grammars'⟩, ruleNames', imports'⟩ := adds'
  cases GrammarOutcome.unique_map outcomes outcomes' (isKept.symm.trans isKept')
  cases after
  cases after'
  cases grammars.trans grammars'.symm
  cases ruleNames.trans ruleNames'.symm
  cases imports.trans imports'.symm
  rfl

end Analyzer

/-! ## The analysis of many files -/

namespace Analysis

/-- An analysis collects what a run over trees keeps: the grammars before the first
failure of each file, the names that were registered before the failures, and
entries for what the kept grammars mention. -/
structure Collects
    (source : String)
    (trees : List Node)
    (analysis : Analysis) : Prop where
  /-- Each kept grammar with its whole rule table, in order. -/
  grammars : List.Forall₂
    (fun node settled => ∃ grammar, Analyzer.GrammarOutcome source node grammar ∧
      settled = grammar.settle analysis.ruleNames)
    (trees.flatMap (·.keptGrammars source)) analysis.grammars
  ruleNames (name : String) :
    name ∈ analysis.ruleNames ↔
      ∃ tree ∈ trees, ∃ node ∈ tree.walkedGrammars source, name ∈ node.registeredNames source
  /-- The last file decides which directives are needed. -/
  imports {before after : List Node} {tag : Tag} {preamble grammars : List Node}
      {imported : List String} :
    trees = before ++ .file tag preamble grammars :: after →
      (∀ tree ∈ after, tree.kind ≠ .file) →
      Analyzer.importedBy source preamble = .ok imported →
        analysis.imports = Analyzer.missingImports imported
  noImports : (∀ tree ∈ trees, tree.kind ≠ .file) → analysis.imports = []
  /-- Names are resolved against all rule names. -/
  resolutions (entry : Nat × Resolution) :
    entry ∈ analysis.resolutions ↔
      ∃ node ∈ trees.flatMap (·.keptGrammars source), ∃ definition ∈ node.grammarDefinitions,
        ∃ mention ∈ definition.mentions, ∃ occurrence, mention.read source = .ok occurrence ∧
          occurrence.resolution? analysis.ruleNames = some entry
  /-- Arguments are classified against all rule names. -/
  arguments (entry : Nat × ArgumentKind) :
    entry ∈ analysis.arguments ↔
      ∃ node ∈ trees.flatMap (·.keptGrammars source), ∃ definition ∈ node.grammarDefinitions,
        ∃ mention ∈ definition.mentions, ∃ occurrence, mention.read source = .ok occurrence ∧
          occurrence.argumentKind? analysis.ruleNames (definition.occurrenceScope source) =
            some entry
  /-- Only nodes of kept grammars are resolved. -/
  resolved {id : Nat} {resolution : Resolution} :
    analysis.resolution? id = some resolution →
      ∃ node ∈ trees.flatMap (·.keptGrammars source), id ∈ node.ids
  /-- Only nodes of kept grammars are passed as arguments. -/
  passed {id : Nat} {kind : ArgumentKind} :
    analysis.argument? id = some kind →
      ∃ node ∈ trees.flatMap (·.keptGrammars source), id ∈ node.ids

section

variable {source : String} {walked : List (Node × GrammarAnalysis)}
variable (outcomes : ∀ step ∈ walked, Analyzer.GrammarOutcome source step.1 step.2)

include outcomes

/-- The entries of walked grammars are what is recorded for the mentions in their
definitions. -/
theorem mem_entries_iff_mentioned
    {entries : Scope → List α}
    {record? : Definition → Occurrence → Option α}
    (ofScope : ∀ definition entry,
      entry ∈ entries (definition.occurrenceScope source) ↔
        ∃ occurrence ∈ definition.occurrences source, record? definition occurrence = some entry)
    {entry : α} :
    entry ∈ ((walked.map (·.2)).flatMap (·.scopes)).flatMap entries ↔
      ∃ node ∈ walked.map (·.1), ∃ definition ∈ node.grammarDefinitions,
        ∃ mention ∈ definition.mentions, ∃ occurrence, mention.read source = .ok occurrence ∧
          record? definition occurrence = some entry := by
  have readable {node : Node} (isWalked : node ∈ walked.map (·.1)) {definition : Definition}
      (isDefinition : definition ∈ node.grammarDefinitions) :
      definition.IsReadable source := by
    obtain ⟨step, isStep, rfl⟩ := List.mem_map.mp isWalked
    exact (outcomes step isStep).readable definition isDefinition
  rw [mem_flatMap_scopes_iff outcomes]
  constructor
  · rintro ⟨definition, inSome, member⟩
    obtain ⟨node, isWalked, isDefinition⟩ := List.mem_flatMap.mp inSome
    have mentions := (readable isWalked isDefinition).mentions
    exact ⟨node, isWalked, definition, isDefinition,
      (Definition.exists_occurrence_iff mentions).mp ((ofScope definition entry).mp member)⟩
  · rintro ⟨node, isWalked, definition, isDefinition, mentioned⟩
    have mentions := (readable isWalked isDefinition).mentions
    exact ⟨definition, List.mem_flatMap.mpr ⟨node, isWalked, isDefinition⟩,
      (ofScope definition entry).mpr ((Definition.exists_occurrence_iff mentions).mpr mentioned)⟩

variable {analyzer : Analyzer} (grammars : analyzer.grammars = walked.map (·.2))

include grammars

theorem mem_resolutions_finish_iff
    {entry : Nat × Resolution} :
    entry ∈ analyzer.finish.resolutions ↔
      ∃ node ∈ walked.map (·.1), ∃ definition ∈ node.grammarDefinitions,
        ∃ mention ∈ definition.mentions, ∃ occurrence, mention.read source = .ok occurrence ∧
          occurrence.resolution? analyzer.ruleNames = some entry := by
  simp only [Analyzer.finish, grammars]
  exact mem_entries_iff_mentioned outcomes fun _ _ => Scope.mem_resolutions_ofOccurrences_iff

theorem mem_arguments_finish_iff
    {entry : Nat × ArgumentKind} :
    entry ∈ analyzer.finish.arguments ↔
      ∃ node ∈ walked.map (·.1), ∃ definition ∈ node.grammarDefinitions,
        ∃ mention ∈ definition.mentions, ∃ occurrence, mention.read source = .ok occurrence ∧
          occurrence.argumentKind? analyzer.ruleNames (definition.occurrenceScope source) =
            some entry := by
  simp only [Analyzer.finish, grammars]
  exact mem_entries_iff_mentioned outcomes fun _ _ => Scope.mem_argumentKinds_ofOccurrences_iff

end

/-- A number that a definition of a grammar mentions belongs to a node of the
grammar. -/
theorem mem_ids_of_mention
    {number? : Mention → Option Nat}
    (ofMentions : ∀ node : Node, (node.mentions.filterMap number?).Sublist node.ids)
    {node : Node}
    {definition : Definition}
    (isDefinition : definition ∈ node.grammarDefinitions)
    {mention : Mention}
    (isMention : mention ∈ definition.mentions)
    {id : Nat}
    (numbered : number? mention = some id) :
    id ∈ node.ids := by
  apply (Node.mentionedIds_sublist ofMentions node).subset
  have inNode := (Node.grammarDefinitions_sublist_definitions node).subset isDefinition
  exact List.mem_flatMap.mpr
    ⟨definition, inNode, List.mem_filterMap.mpr ⟨mention, isMention, numbered⟩⟩

end Analysis

namespace Analyzer

theorem foldl_neededImports_of_no_file
    {source : String}
    {trees : List Node}
    (noFile : ∀ tree ∈ trees, tree.kind ≠ .file)
    (imports : List String) :
    trees.foldl (fun imports tree => (tree.neededImports? source).getD imports) imports =
      imports := by
  induction trees with
  | nil => rfl
  | cons tree trees inductionHypothesis =>
      obtain ⟨first, others⟩ := List.forall_mem_cons.mp noFile
      have needsNothing : tree.neededImports? source = none := by
        cases tree with
        | file tag preamble grammars => exact absurd rfl first
        | _ => rfl
      rw [List.foldl_cons, needsNothing, Option.getD_none, inductionHypothesis others]

theorem foldl_neededImports_of_last_file
    {source : String}
    {before after : List Node}
    {tag : Tag}
    {preamble grammars : List Node}
    {imported : List String}
    (noFile : ∀ tree ∈ after, tree.kind ≠ .file)
    (importsRead : importedBy source preamble = .ok imported)
    (imports : List String) :
    (before ++ .file tag preamble grammars :: after).foldl
        (fun imports tree => (tree.neededImports? source).getD imports) imports =
      missingImports imported := by
  rw [List.foldl_append, List.foldl_cons, foldl_neededImports_of_no_file noFile,
    Node.neededImports?, importsRead]
  rfl

/-- What a run keeps is what the finished analysis collects. -/
theorem collects_analyzeAll
    (source : String)
    (trees : List Node) :
    (analyzeAll source {} trees).1.finish.Collects source trees := by
  obtain ⟨⟨walked, kept, outcomes, grammars⟩, ruleNames, imports⟩ :=
    addsTrees_analyzeAll source {} trees
  rw [List.nil_append] at grammars
  generalize (analyzeAll source {} trees).1 = final at *
  refine ⟨?_, ?_, ?_, ?_, ?_, ?_, ?_, ?_⟩
  · simp only [kept, finish, grammars, List.forall₂_map_left_iff, List.forall₂_map_right_iff,
      List.forall₂_same]
    intro step isStep
    exact ⟨step.2, outcomes step isStep, rfl⟩
  · intro name
    simp only [finish, ruleNames, NameSet.mem_insertAll, NameSet.not_mem_empty, false_or,
      List.flatMap_assoc, List.mem_flatMap]
  · intro before after tag preamble fileGrammars imported isLast noFile importsRead
    rw [finish, imports, isLast]
    exact foldl_neededImports_of_last_file noFile importsRead []
  · intro noFile
    rw [finish, imports]
    exact foldl_neededImports_of_no_file noFile []
  · intro entry
    rw [kept]
    exact Analysis.mem_resolutions_finish_iff outcomes grammars
  · intro entry
    rw [kept]
    exact Analysis.mem_arguments_finish_iff outcomes grammars
  · intro id resolution found
    obtain ⟨node, isKept, definition, isDefinition, mention, isMention, occurrence, read,
      recorded⟩ := (Analysis.mem_resolutions_finish_iff outcomes grammars).mp
        (Analysis.mem_of_lastEntry_eq_some found)
    have numbered := (Mention.resolvedId?_eq_some_iff read final.ruleNames).mpr ⟨_, recorded⟩
    rw [kept]
    exact ⟨node, isKept,
      Analysis.mem_ids_of_mention Node.resolvedIds_sublist isDefinition isMention numbered⟩
  · intro id kind found
    obtain ⟨node, isKept, definition, isDefinition, mention, isMention, occurrence, read,
      recorded⟩ := (Analysis.mem_arguments_finish_iff outcomes grammars).mp
        (Analysis.mem_of_lastEntry_eq_some found)
    have numbered := (Mention.argumentId?_eq_some_iff read final.ruleNames _).mpr ⟨_, recorded⟩
    rw [kept]
    exact ⟨node, isKept,
      Analysis.mem_ids_of_mention Node.argumentIds_sublist isDefinition isMention numbered⟩

/-- Rule names are never lost. -/
theorem ruleNames_subset_analyzeAll
    (source : String)
    (analyzer : Analyzer)
    (trees : List Node)
    {name : String}
    (known : name ∈ analyzer.ruleNames) :
    name ∈ (analyzeAll source analyzer trees).1.ruleNames := by
  rw [(addsTrees_analyzeAll source analyzer trees).ruleNames, NameSet.mem_insertAll]
  exact .inl known

/-- If every walk succeeds, the run ends where the walk of one file ends that holds
all grammars and the preamble of the last file. -/
theorem analyze_flatMap_grammars
    {source : String}
    {front : List Node}
    {tag : Tag}
    {preamble grammars : List Node}
    {trees : List Node}
    (isLast : trees = front ++ [.file tag preamble grammars])
    (analyzable : ∀ tree ∈ trees, tree.IsAnalyzableFile source)
    (tag' : Tag) :
    GrammarCompiler.analyze source (.file tag' preamble (trees.flatMap Node.grammars)) =
      .ok (analyzeAll source {} trees).1.finish := by
  have lastAnalyzable : (Node.file tag preamble grammars).IsAnalyzableFile source := by
    apply analyzable
    rw [isLast]
    exact List.mem_append_right _ List.mem_cons_self
  have whole : (Node.file tag' preamble (trees.flatMap Node.grammars)).IsAnalyzableFile source := by
    refine ⟨lastAnalyzable.1, ?_⟩
    intro node member
    obtain ⟨tree, isTree, inTree⟩ := List.mem_flatMap.mp member
    exact (analyzable tree isTree).2 node inTree
  have kept : trees.flatMap (·.keptGrammars source) = trees.flatMap Node.grammars :=
    List.flatMap_congr fun tree isTree => (analyzable tree isTree).keptGrammars_eq
  have walked : trees.flatMap (·.walkedGrammars source) = trees.flatMap Node.grammars :=
    List.flatMap_congr fun tree isTree => (analyzable tree isTree).walkedGrammars_eq
  obtain ⟨imports, needed⟩ := Option.isSome_iff_exists.mp lastAnalyzable.1
  have needed' :
      (Node.file tag' preamble (trees.flatMap Node.grammars)).neededImports? source =
        some imports :=
    needed
  have lastImports : trees.foldl
      (fun imports tree => (tree.neededImports? source).getD imports) [] = imports := by
    rw [isLast, List.foldl_append, List.foldl_cons, List.foldl_nil, needed, Option.getD_some]
  have adds := addsTrees_analyzeAll source {} trees
  have adds' := addsTrees_analyze source {} (.file tag' preamble (trees.flatMap Node.grammars))
  rw [kept, walked, lastImports] at adds
  rw [whole.keptGrammars_eq, whole.walkedGrammars_eq, needed', Option.getD_some] at adds'
  have ends : ({} : Analyzer).analyze source
      (.file tag' preamble (trees.flatMap Node.grammars)) =
        ((analyzeAll source {} trees).1, none) :=
    Prod.ext (adds'.unique adds) ((snd_analyze_eq_none_iff source {} _).mpr whole)
  rw [GrammarCompiler.analyze, ends]

/-- A run over trees is the walk of their grammars one after the other. -/
structure RunsAsConcatenation (source : String) (trees : List Node) : Prop where
  /-- Exactly the trees that are files without a failure succeed. -/
  outcomes : List.Forall₂ (fun tree outcome => outcome = none ↔ tree.IsAnalyzableFile source)
    trees (analyzeAll source {} trees).2
  collected : (analyzeAll source {} trees).1.finish.Collects source trees
  /-- Rule names are never lost. -/
  namesGrow {before after : List Node} {name : String} :
    trees = before ++ after → name ∈ (analyzeAll source {} before).1.ruleNames →
      name ∈ (analyzeAll source {} trees).1.ruleNames
  /-- If all trees succeed, the run gives the analysis of one file. -/
  asOneFile {front : List Node} {tag tag' : Tag} {preamble grammars : List Node} :
    (∀ outcome ∈ (analyzeAll source {} trees).2, outcome = none) →
      trees = front ++ [.file tag preamble grammars] →
        GrammarCompiler.analyze source (.file tag' preamble (trees.flatMap Node.grammars)) =
          .ok (analyzeAll source {} trees).1.finish

/-- One analyzer over many files, some of which may fail, collects the grammars that
do not fail, and it keeps all names that it met. -/
theorem analyzeAll_runsAsConcatenation
    (source : String)
    (trees : List Node) :
    RunsAsConcatenation source trees where
  outcomes := forall₂_outcomes source {} trees
  collected := collects_analyzeAll source trees
  namesGrow := by
    rintro before after name rfl known
    rw [fst_analyzeAll_append]
    exact ruleNames_subset_analyzeAll source _ after known
  asOneFile := by
    intro front tag tag' preamble grammars succeeds isLast
    apply analyze_flatMap_grammars isLast
    intro tree isTree
    obtain ⟨outcome, isOutcome, settles⟩ :=
      exists_partner (forall₂_outcomes source {} trees) isTree
    exact settles.mp (succeeds outcome isOutcome)

/-- A directive, a grammar that can be analyzed and one whose rule is followed by a
comment. -/
def mixedSource : String :=
  "using System; G<c, i> A = x; H<c, i> B = L.N;"

/-- The first grammar of `mixedSource`. -/
def analyzableGrammar : Node :=
  .grammar ⟨1, ⟨14, 28⟩, {}⟩
    (.declaration ⟨2, ⟨14, 21⟩, {}⟩
      (.genericName ⟨3, ⟨14, 21⟩, {}⟩ (.code ⟨4, ⟨14, 15⟩, {}⟩)
        [.code ⟨5, ⟨16, 17⟩, {}⟩, .code ⟨6, ⟨19, 20⟩, {}⟩]) none)
    [.rule ⟨7, ⟨22, 28⟩, {}⟩ false (.code ⟨8, ⟨22, 23⟩, {}⟩) none
      (.identifier ⟨9, ⟨26, 27⟩, {}⟩)]

/-- The second grammar of `mixedSource`; the comment stands in its rule. -/
def failingGrammar : Node :=
  .grammar ⟨10, ⟨29, 45⟩, {}⟩
    (.declaration ⟨11, ⟨29, 36⟩, {}⟩
      (.genericName ⟨12, ⟨29, 36⟩, {}⟩ (.code ⟨13, ⟨29, 30⟩, {}⟩)
        [.code ⟨14, ⟨31, 32⟩, {}⟩, .code ⟨15, ⟨34, 35⟩, {}⟩]) none)
    [.rule ⟨16, ⟨37, 45⟩, {}⟩ false (.code ⟨17, ⟨37, 38⟩, {}⟩) none
      (.sequence ⟨18, ⟨41, 44⟩, {}⟩
        [.identifier ⟨19, ⟨41, 44⟩, {}⟩, .comment ⟨20, ⟨44, 44⟩, {}⟩])]

/-- A file that succeeds, one that fails in its second grammar, a comment, and
another file that succeeds. -/
def mixedTrees : List Node :=
  [.file ⟨21, ⟨0, 45⟩, {}⟩ [] [analyzableGrammar],
    .file ⟨22, ⟨0, 45⟩, {}⟩ [] [analyzableGrammar, failingGrammar, analyzableGrammar],
    .comment ⟨23, ⟨0, 13⟩, {}⟩,
    .file ⟨24, ⟨0, 45⟩, {}⟩
      [.usingDirective ⟨25, ⟨0, 13⟩, {}⟩ (.code ⟨26, ⟨6, 12⟩, {}⟩)] [analyzableGrammar]]

/-- The failing grammar is lost, its names are not. -/
theorem runsAsConcatenation_mixedTrees :
    RunsAsConcatenation mixedSource mixedTrees ∧
      (analyzeAll mixedSource {} mixedTrees).2.map Option.isSome = [false, true, true, false] ∧
      (analyzeAll mixedSource {} mixedTrees).1.ruleNames.toList = ["A", "B", "L.N"] ∧
      (analyzeAll mixedSource {} mixedTrees).1.grammars.map (·.nodeId) = [1, 1, 1] ∧
      (analyzeAll mixedSource {} mixedTrees).1.imports =
        ["using System.Collections.Generic;", "using System.Linq;"] := by
  refine ⟨analyzeAll_runsAsConcatenation mixedSource mixedTrees, ?_, ?_, ?_, ?_⟩
  all_goals decide +kernel

end Analyzer
end GrammarCompiler
