import GrammarCompiler.Proofs.SynthesisCompleteness
import GrammarCompiler.Proofs.WalkOrder

/-!
# Analysis accepts the well-formed trees

A tree is well formed if it is a file of typed grammars whose rules hold nothing
but expressions.  The faults of a tree are listed in the order in which they are
met; for a tree whose spans fit the source, analysis fails with the first of
them and succeeds if there is none.
-/

namespace GrammarCompiler

/-- A violation with the span of the node at fault. -/
structure Fault where
  cause : Violation
  span : Span
  deriving DecidableEq

/-- The failure that reports a fault. -/
def Fault.failure (fault : Fault) : Failure :=
  .violation fault.cause fault.span

namespace Node

/-! ## Well-formed trees -/

/-- A generic name with exactly two parameters, the input and the result type. -/
def GivesTypes (node : Node) : Prop :=
  ∃ tag name input result, node = genericName tag name [input, result]

instance (node : Node) : Decidable node.GivesTypes :=
  match node with
  | genericName tag name [input, result] => isTrue ⟨tag, name, input, result, rfl⟩
  | genericName _ _ [] | genericName _ _ [_] | genericName _ _ (_ :: _ :: _ :: _) =>
      isFalse nofun
  | file .. | usingDirective .. | comment .. | grammar .. | declaration .. | code .. | rule ..
  | literal .. | identifier .. | call .. | any .. | unary .. | binding .. | condition ..
  | action .. | sequence .. | choice .. | fail .. => isFalse nofun

/-- A declaration that gives types, itself or through its base. -/
def DeclaresTypes (node : Node) : Prop :=
  ∃ tag name base?, node = declaration tag name base? ∧
    (name.GivesTypes ∨ ∃ base ∈ base?, base.GivesTypes)

/-- A file of typed grammars, in whose rules only expressions stand in
expression position. -/
def WellFormed (tree : Node) : Prop :=
  ∃ tag preamble grammars, tree = file tag preamble grammars ∧
    ∀ node ∈ grammars, ∃ grammarTag header body, node = grammar grammarTag header body ∧
      header.DeclaresTypes ∧
      ∀ item ∈ body, ∀ rule, item.ReachesRule rule →
        ∀ inner, rule.InRule inner → inner.isExpression = true

/-! ## Faults in the order in which they are met -/

/-- The nodes in a rule that are met in expression position and are no
expressions. -/
def ruleFaults (rule : Node) : List Fault :=
  (rule.walkedNodes.filter fun node => !node.isExpression).map fun node =>
    { cause := .misplaced node.kind, span := node.span }

/-- The name of a declaration, without parameters. -/
def spelledName (source : String) : Node → String
  | genericName _ name _ => name.tag.trimmedText source
  | node => node.tag.trimmedText source

def declarationFaults (source : String) : Node → List Fault
  | declaration tag name base? =>
      if name.GivesTypes ∨ ∃ base ∈ base?, base.GivesTypes then []
      else [{ cause := .untyped (name.spelledName source), span := tag.span }]
  | node => [{ cause := .notDeclaration node.kind, span := node.span }]

/-- A grammar is at fault for its declaration first, then for its rules in
source order. -/
def grammarFaults (source : String) : Node → List Fault
  | grammar tag header body =>
      header.declarationFaults source ++ (grammar tag header body).declaredRules.flatMap ruleFaults
  | node => [{ cause := .notGrammar node.kind, span := node.span }]

/-- The faults of a tree in the order in which they are met. -/
def faults (source : String) : Node → List Fault
  | file _ _ grammars => grammars.flatMap (grammarFaults source)
  | node => [{ cause := .rootNotFile node.kind, span := node.span }]

theorem ruleFaults_eq_nil_iff
    {rule : Node} :
    rule.ruleFaults = [] ↔ ∀ inner, rule.InRule inner → inner.isExpression = true := by
  simp [ruleFaults, mem_walkedNodes_iff]

theorem declarationFaults_eq_nil_iff
    {source : String}
    {header : Node} :
    header.declarationFaults source = [] ↔ header.DeclaresTypes := by
  unfold declarationFaults DeclaresTypes
  split
  · next tag name base? =>
      constructor
      · intro none
        by_contra untyped
        rw [if_neg fun typed => untyped ⟨tag, name, base?, rfl, typed⟩] at none
        cases none
      · rintro ⟨_, _, _, same, typed⟩
        cases same
        exact if_pos typed
  · next different =>
      constructor
      · nofun
      · rintro ⟨tag, name, base?, rfl, _⟩
        exact absurd rfl (different tag name base?)

/-- A tree is well formed if nothing in it is at fault. -/
theorem faults_eq_nil_iff
    (source : String)
    {tree : Node} :
    tree.faults source = [] ↔ tree.WellFormed := by
  have ofGrammar (node : Node) : node.grammarFaults source = [] ↔
      ∃ tag header body, node = grammar tag header body ∧ header.DeclaresTypes ∧
        ∀ item ∈ body, ∀ rule, item.ReachesRule rule →
          ∀ inner, rule.InRule inner → inner.isExpression = true := by
    cases node with
    | grammar tag header body =>
        rw [grammarFaults, List.append_eq_nil_iff, declarationFaults_eq_nil_iff, declaredRules,
          List.flatMap_eq_nil_iff]
        simp only [List.mem_flatMap, mem_rulesIn_iff, ruleFaults_eq_nil_iff]
        constructor
        · rintro ⟨typed, ofRules⟩
          refine ⟨tag, header, body, rfl, typed, fun item inBody rule reached => ?_⟩
          exact ofRules rule ⟨item, inBody, reached⟩
        · rintro ⟨_, _, _, same, typed, ofRules⟩
          cases same
          refine ⟨typed, ?_⟩
          rintro rule ⟨item, inBody, reached⟩
          exact ofRules item inBody rule reached
    | _ =>
        constructor
        · intro none
          cases none
        · rintro ⟨_, _, _, same, _⟩
          cases same
  cases tree with
  | file tag preamble grammars =>
      rw [faults, List.flatMap_eq_nil_iff]
      simp only [ofGrammar]
      constructor
      · intro each
        exact ⟨tag, preamble, grammars, rfl, each⟩
      · rintro ⟨_, _, _, same, each⟩
        cases same
        exact each
  | _ =>
      constructor
      · intro none
        cases none
      · rintro ⟨_, _, _, same, _⟩
        cases same

end Node

/-! ## The first failure -/

/-- The failure of a step, if it fails. -/
def failure? : Except Failure α → Option Failure
  | .ok _ => none
  | .error failure => some failure

/-- The failure that reports the first of some faults. -/
def firstFailure (faults : List Fault) : Option Failure :=
  faults.head?.map Fault.failure

theorem firstFailure_append (left right : List Fault) :
    firstFailure (left ++ right) = (firstFailure left).or (firstFailure right) := by
  cases left <;> simp [firstFailure]

theorem failure?_eq_none_iff
    {step : Except Failure α} :
    failure? step = none ↔ ∃ value, step = .ok value := by
  cases step <;> simp [failure?]

theorem failure?_eq_some_iff
    {step : Except Failure α}
    {failure : Failure} :
    failure? step = some failure ↔ step = .error failure := by
  cases step <;> simp [failure?]

/-- Steps one after the other fail with the first of their faults. -/
theorem failure?_bind
    {first : Except Failure α}
    {next : α → Except Failure β}
    {firstFaults nextFaults : List Fault}
    (ofFirst : failure? first = firstFailure firstFaults)
    (ofNext : ∀ value, first = .ok value → failure? (next value) = firstFailure nextFaults) :
    failure? (first >>= next) = firstFailure (firstFaults ++ nextFaults) := by
  rw [firstFailure_append, ← ofFirst]
  cases first with
  | error failure => rfl
  | ok value => exact ofNext value rfl

theorem failure?_map
    (first : Except Failure α)
    (change : α → β) :
    failure? (first.map change) = failure? first := by
  cases first <;> rfl

/-- Steps for all members fail with the first fault of a member. -/
theorem failure?_mapM
    {step : α → Except Failure β}
    {faultsOf : α → List Fault}
    {inputs : List α}
    (each : ∀ input ∈ inputs, failure? (step input) = firstFailure (faultsOf input)) :
    failure? (inputs.mapM step) = firstFailure (inputs.flatMap faultsOf) := by
  induction inputs with
  | nil => rfl
  | cons input inputs inductionHypothesis =>
      obtain ⟨ofInput, ofOthers⟩ := List.forall_mem_cons.mp each
      rw [List.mapM_cons, List.flatMap_cons]
      refine failure?_bind ofInput fun output _ => ?_
      rw [← List.append_nil (inputs.flatMap faultsOf)]
      exact failure?_bind (inductionHypothesis ofOthers) fun outputs _ => rfl

/-! ## Reading -/

namespace Mention

/-- The tag under which a mention is read. -/
def tag : Mention → Tag
  | .identifier tag => tag
  | .callee _ name => name
  | .argument tag => tag
  | .binding captured => captured
  | .misplaced _ tag => tag

/-- A mention is at fault if it is no expression. -/
def fault? : Mention → Option Fault
  | .misplaced kind tag => some { cause := .misplaced kind, span := tag.span }
  | _ => none

theorem failure?_read
    {source : String}
    {mention : Mention}
    (fits : Text.fits source mention.tag.span = true) :
    failure? (mention.read source) = firstFailure mention.fault?.toList := by
  obtain ⟨text, found⟩ := Tag.exists_text_of_fits fits
  have isRead := Tag.read_eq_ok.mpr found
  cases mention with
  | misplaced kind tag => rfl
  | identifier tag | callee id tag | argument tag | binding tag =>
      simp only [read, Tag.readTrimmed, Mention.tag] at isRead ⊢
      rw [isRead]
      rfl

end Mention

namespace Node

theorem tag_mem_tags_of_ownMentions
    {node : Node}
    {mention : Mention}
    (own : mention ∈ node.ownMentions) :
    mention.tag ∈ node.tags := by
  have ofChild {child : Node} (isChild : child ∈ node.children) : child.tag ∈ node.tags :=
    tags_subset_of_mem_children isChild (tag_mem_tags child)
  cases node with
  | call tag name arguments =>
      rcases List.mem_cons.mp own with rfl | isArgument
      · exact ofChild List.mem_cons_self
      · obtain ⟨argument, member, rfl⟩ := List.mem_map.mp isArgument
        exact ofChild (List.mem_cons_of_mem _ member)
  | binding tag operand captured =>
      cases List.mem_singleton.mp own
      exact ofChild (List.mem_cons_of_mem _ List.mem_cons_self)
  | identifier tag =>
      cases List.mem_singleton.mp own
      exact tag_mem_tags _
  | file | usingDirective | comment | grammar | declaration | genericName | code | rule =>
      cases List.mem_singleton.mp own
      exact tag_mem_tags _
  | literal | any | unary | condition | action | sequence | choice | fail => cases own

theorem tags_subset_of_inExpression
    {node inner : Node}
    (inNode : node.InExpression inner) :
    inner.tags ⊆ node.tags := by
  induction inNode with
  | here => exact List.Subset.refl _
  | through goesOn _ inductionHypothesis =>
      have isChild := expressionChildren_subset_children _ goesOn
      exact List.Subset.trans inductionHypothesis (tags_subset_of_mem_children isChild)

/-- What a definition mentions can be read if the spans of its rule fit. -/
theorem fits_of_mem_mentions
    {source : String}
    {rule : Node}
    (fits : rule.FitsSource source)
    {mention : Mention}
    (isMention : mention ∈ rule.definition.mentions) :
    Text.fits source mention.tag.span = true := by
  obtain ⟨expression, isExpression, inside⟩ := List.mem_flatMap.mp isMention
  obtain ⟨inner, inExpression, own⟩ := mem_mentions_iff.mp inside
  have isChild := (ruleExpressions_sublist_children rule).subset isExpression
  apply fits.child isChild
  exact tags_subset_of_inExpression inExpression (tag_mem_tags_of_ownMentions own)

theorem filterMap_fault?_ownMentions (node : Node) :
    node.ownMentions.filterMap Mention.fault? =
      if node.isExpression then []
      else [{ cause := .misplaced node.kind, span := node.span }] := by
  cases node <;>
    simp [ownMentions, isExpression, kind, Kind.isExpression, Mention.fault?, span, tag]

/-- The faults among the mentions of a definition are those of its rule. -/
theorem filterMap_fault?_mentions (rule : Node) :
    rule.definition.mentions.filterMap Mention.fault? = rule.ruleFaults := by
  rw [filterMap_definition_mentions (fun _ => rfl), ruleFaults]
  simp only [filterMap_fault?_ownMentions]
  induction rule.walkedNodes with
  | nil => rfl
  | cons node nodes inductionHypothesis =>
      rw [List.flatMap_cons, inductionHypothesis]
      by_cases isExpression : node.isExpression <;> simp [isExpression]

/-- The scope of a definition fails with the first fault of its rule. -/
theorem failure?_scope
    {source : String}
    {rule : Node}
    (fits : rule.FitsSource source) :
    failure? (rule.definition.scope source) = firstFailure rule.ruleFaults := by
  rw [Definition.scope, failure?_map, ← filterMap_fault?_mentions,
    List.filterMap_eq_flatMap_toList]
  apply failure?_mapM
  intro mention isMention
  exact Mention.failure?_read (fits_of_mem_mentions fits isMention)

end Node

/-! ## Declarations -/

theorem Node.FitsSource.readTrimmed_eq
    {source : String}
    {node : Node}
    (fits : node.FitsSource source) :
    node.tag.readTrimmed source = .ok (node.tag.trimmedText source) := by
  obtain ⟨text, isRead⟩ := fits.exists_readTrimmed
  rw [isRead, ← Tag.eq_trimmedText_of_readTrimmed isRead]

namespace Declaration

variable {source : String}

/-- The name and the types of a node whose spans fit. -/
theorem nameAndTypes_eq_ok
    {node : Node}
    (fits : node.FitsSource source) :
    ∃ types?, nameAndTypes source node = .ok (node.spelledName source, types?) ∧
      (types?.isSome = true ↔ node.GivesTypes) := by
  unfold nameAndTypes
  split
  · next tag name input result =>
      have nameFits := fits.child List.mem_cons_self
      have inputFits := fits.child (List.mem_cons_of_mem _ List.mem_cons_self)
      have resultFits := fits.child
        (List.mem_cons_of_mem _ (List.mem_cons_of_mem _ List.mem_cons_self))
      rw [nameFits.readTrimmed_eq, inputFits.readTrimmed_eq, resultFits.readTrimmed_eq]
      refine ⟨some _, rfl, ?_⟩
      simp [Node.GivesTypes]
  · next tag name parameters notTwo =>
      rw [(fits.child List.mem_cons_self).readTrimmed_eq]
      refine ⟨none, rfl, nofun, ?_⟩
      rintro ⟨_, _, input, result, same⟩
      cases same
      exact absurd rfl (notTwo input result)
  · next notTwo notGeneric =>
      rw [fits.readTrimmed_eq]
      refine ⟨none, ?_, nofun, ?_⟩
      · cases node with
        | genericName tag name parameters => exact absurd rfl (notGeneric tag name parameters)
        | _ => rfl
      · rintro ⟨tag, name, input, result, rfl⟩
        exact absurd rfl (notTwo tag name input result)

theorem typesOf_eq_ok
    {base? : Option Node}
    (fits : ∀ base ∈ base?, base.FitsSource source)
    (own? : Option (String × String)) :
    ∃ types?, typesOf source own? base? = .ok types? ∧
      (types?.isSome = true ↔ own?.isSome = true ∨ ∃ base ∈ base?, base.GivesTypes) := by
  cases own? with
  | some types => exact ⟨some types, rfl, by simp⟩
  | none =>
      cases base? with
      | none => exact ⟨none, rfl, by simp⟩
      | some base =>
          obtain ⟨types?, named, typed⟩ := nameAndTypes_eq_ok (fits base rfl)
          refine ⟨types?, ?_, ?_⟩
          · rw [typesOf, named]
            rfl
          · simpa using typed

theorem exists_baseOf
    (inputType resultType : String)
    {base? : Option Node}
    (fits : ∀ base ∈ base?, base.FitsSource source) :
    ∃ baseClass, baseOf source inputType resultType base? = .ok baseClass := by
  cases base? with
  | none => exact ⟨_, rfl⟩
  | some base => exact (fits base rfl).exists_readTrimmed

/-- A declaration fails if it gives no types. -/
theorem failure?_ofNode
    {header : Node}
    (fits : header.FitsSource source) :
    failure? (ofNode source header) = firstFailure (header.declarationFaults source) := by
  cases header with
  | declaration tag name base? =>
      have baseFits : ∀ base ∈ base?, base.FitsSource source := by
        intro base isBase
        exact fits.child (List.mem_cons_of_mem _ (Option.mem_toList.mpr isBase))
      obtain ⟨own?, named, ownTyped⟩ := nameAndTypes_eq_ok (fits.child List.mem_cons_self)
      obtain ⟨types?, typesFound, typed⟩ := typesOf_eq_ok baseFits own?
      rw [ownTyped] at typed
      rw [Node.declarationFaults]
      cases types? with
      | none =>
          rw [if_neg (by simpa using typed), ofNode, named]
          simp only [bind, Except.bind, typesFound]
          rfl
      | some types =>
          obtain ⟨baseClass, baseRead⟩ := exists_baseOf types.1 types.2 baseFits
          rw [if_pos (typed.mp rfl), ofNode, named]
          simp only [bind, Except.bind, typesFound, baseRead]
          rfl
  | _ => rfl

end Declaration

/-! ## Grammars and files -/

namespace Analyzer

variable {source : String}

theorem exists_importedBy
    {nodes : List Node}
    (fits : ∀ node ∈ nodes, node.FitsSource source) :
    ∃ imported, importedBy source nodes = .ok imported := by
  induction nodes with
  | nil => exact ⟨[], rfl⟩
  | cons node nodes inductionHypothesis =>
      obtain ⟨nodeFits, othersFit⟩ := List.forall_mem_cons.mp fits
      have others := inductionHypothesis othersFit
      cases node with
      | usingDirective tag target =>
          have targetFits := nodeFits.child List.mem_cons_self
          refine exists_bind_eq_ok targetFits.exists_readTrimmed fun _ => ?_
          exact exists_bind_eq_ok others fun _ => ⟨_, rfl⟩
      | _ => exact others

section

variable {rules : List Node}
variable (fits : ∀ rule ∈ rules, rule.FitsSource source)

include fits

theorem exists_definitionNames :
    ∃ names, definitionNames source (rules.map Node.definition) = .ok names := by
  apply exists_mapM_eq_ok
  intro definition isDefinition
  obtain ⟨rule, isRule, rfl⟩ := List.mem_map.mp isDefinition
  have ruleFits := fits rule isRule
  cases rule with
  | rule tag isOverride name params? body =>
      exact (ruleFits.child List.mem_cons_self).exists_readTrimmed
  | _ => exact ruleFits.exists_readTrimmed

/-- The rule table fails with the first fault of a rule. -/
theorem failure?_ruleTable (names : List String) :
    failure? (ruleTable source (rules.map Node.definition) names) =
      firstFailure (rules.flatMap Node.ruleFaults) := by
  have ofScopes : failure? ((rules.map Node.definition).mapM (Definition.scope source)) =
      firstFailure (rules.flatMap Node.ruleFaults) := by
    rw [List.mapM_map]
    apply failure?_mapM
    intro rule isRule
    exact Node.failure?_scope (fits rule isRule)
  rw [← List.append_nil (rules.flatMap Node.ruleFaults)]
  exact failure?_bind ofScopes fun _ _ => rfl

end

/-- The walk of a grammar fails with the first fault of the grammar. -/
theorem failure?_walkGrammar
    {node : Node}
    (fits : node.FitsSource source)
    (known : NameSet) :
    failure? (walkGrammar source known node).2 = firstFailure (node.grammarFaults source) := by
  cases node with
  | grammar tag header body =>
      have ofHeader := Declaration.failure?_ofNode (fits.child List.mem_cons_self)
      have ruleFits : ∀ rule ∈ (Node.grammar tag header body).declaredRules,
          rule.FitsSource source := by
        intro rule isRule
        obtain ⟨item, inBody, inItem⟩ := List.mem_flatMap.mp isRule
        have itemFits := fits.child (List.mem_cons_of_mem header inBody)
        exact itemFits.reached (Node.mem_rulesIn_iff.mp inItem)
      have definitions : Node.definitionsAll body =
          (Node.grammar tag header body).declaredRules.map Node.definition :=
        Node.grammarDefinitions_eq_map (.grammar tag header body)
      obtain ⟨names, namesRead⟩ := exists_definitionNames ruleFits
      rw [Node.grammarFaults, firstFailure_append, ← ofHeader, ← failure?_ruleTable ruleFits names]
      simp only [walkGrammar, definitions, namesRead]
      split
      · next failure failed =>
          rw [failed]
          rfl
      · next declaration declared =>
          rw [declared]
          exact failure?_map _ _
  | _ => rfl

/-- The walk of grammars fails with the first fault of a grammar. -/
theorem walkGrammars_eq_firstFailure
    {nodes : List Node}
    (fits : ∀ node ∈ nodes, node.FitsSource source)
    (analyzer : Analyzer) :
    (walkGrammars source analyzer nodes).2 =
      firstFailure (nodes.flatMap (Node.grammarFaults source)) := by
  induction nodes generalizing analyzer with
  | nil => rfl
  | cons node nodes inductionHypothesis =>
      obtain ⟨nodeFits, othersFit⟩ := List.forall_mem_cons.mp fits
      have ofNode := failure?_walkGrammar nodeFits analyzer.ruleNames
      rw [List.flatMap_cons, firstFailure_append, ← ofNode]
      unfold walkGrammars
      split
      · next walked =>
          rw [walked]
          exact inductionHypothesis othersFit _
      · next walked =>
          rw [walked]
          rfl

end Analyzer

/-- Analysis fails with the first fault of the tree. -/
theorem failure?_analyze
    {source : String}
    {tree : Node}
    (fits : tree.FitsSource source) :
    failure? (analyze source tree) = firstFailure (tree.faults source) := by
  have ofAnalyzer : (({} : Analyzer).analyze source tree).2 = firstFailure (tree.faults source) := by
    cases tree with
    | file tag preamble grammars =>
        have preambleFits : ∀ node ∈ preamble, node.FitsSource source := fun node member =>
          fits.child (List.mem_append_left _ member)
        have grammarsFit : ∀ node ∈ grammars, node.FitsSource source := fun node member =>
          fits.child (List.mem_append_right _ member)
        obtain ⟨imported, importsRead⟩ := Analyzer.exists_importedBy preambleFits
        simp only [Analyzer.analyze, importsRead]
        exact Analyzer.walkGrammars_eq_firstFailure grammarsFit _
    | _ => rfl
  rw [← ofAnalyzer, analyze]
  split
  · next succeeded =>
      rw [succeeded]
      rfl
  · next failed =>
      rw [failed]
      rfl

/-- Analysis accepts exactly the well-formed trees.  For any other tree it
reports the first fault: the diagnostic carries the span of the node at fault,
its start as index, and the location of the start in the grammar file. -/
theorem analysis_accepts_exactly_wellFormed
    (settings : Settings)
    (tree : Node)
    (fits : tree.FitsSource settings.source) :
    ((∃ analysis, analyze settings.source tree = .ok analysis) ↔ tree.WellFormed) ∧
      (¬tree.WellFormed →
        ∃ fault others diagnostic,
          tree.faults settings.source = fault :: others ∧
          analyze settings.source tree = .error fault.failure ∧
          fault.failure.diagnostic? settings = some diagnostic ∧
          diagnostic = .semantic .error fault.cause.message fault.cause.issuer
            diagnostic.location? diagnostic.span? ∧
          diagnostic.span? = some fault.span ∧
          diagnostic.index? = some fault.span.start ∧
          diagnostic.location? = some
            { file := settings.file
              line := (Text.locate settings.source fault.span.start).1
              column := (Text.locate settings.source fault.span.start).2 }) := by
  have outcome := failure?_analyze fits
  have noFaults : tree.faults settings.source = [] ↔ tree.WellFormed :=
    Node.faults_eq_nil_iff settings.source
  constructor
  · rw [← failure?_eq_none_iff, outcome, ← noFaults]
    simp [firstFailure]
  · intro malformed
    rw [← noFaults] at malformed
    obtain ⟨fault, others, met⟩ := List.exists_cons_of_ne_nil malformed
    rw [met] at outcome
    exact ⟨fault, others, _, met, failure?_eq_some_iff.mp outcome, rfl, rfl, rfl, rfl, rfl⟩

/-- Settings for a rule with a misplaced node before an untyped grammar. -/
def misplacedSettings : Settings where
  source := "G<c, i> A = B(1) x|2; H C = y;"

/-- The tree of the source of `misplacedSettings`. -/
def misplacedTree : Node :=
  .file ⟨0, ⟨0, 30⟩, {}⟩ []
    [.grammar ⟨1, ⟨0, 21⟩, {}⟩
      (.declaration ⟨2, ⟨0, 7⟩, {}⟩
        (.genericName ⟨3, ⟨0, 7⟩, {}⟩ (.code ⟨4, ⟨0, 1⟩, {}⟩)
          [.code ⟨5, ⟨2, 3⟩, {}⟩, .code ⟨6, ⟨5, 6⟩, {}⟩]) none)
      [.rule ⟨7, ⟨8, 21⟩, {}⟩ false (.code ⟨8, ⟨8, 9⟩, {}⟩) none
        (.sequence ⟨9, ⟨12, 20⟩, {}⟩
          [.call ⟨10, ⟨12, 16⟩, {}⟩ (.code ⟨11, ⟨12, 13⟩, {}⟩) [.code ⟨12, ⟨14, 15⟩, {}⟩],
            .choice ⟨13, ⟨17, 20⟩, {}⟩
              [.identifier ⟨14, ⟨17, 18⟩, {}⟩, .code ⟨15, ⟨19, 20⟩, {}⟩]])],
      .grammar ⟨16, ⟨22, 30⟩, {}⟩
        (.declaration ⟨17, ⟨22, 23⟩, {}⟩ (.code ⟨18, ⟨22, 23⟩, {}⟩) none)
        [.rule ⟨19, ⟨24, 30⟩, {}⟩ false (.code ⟨20, ⟨24, 25⟩, {}⟩) none
          (.identifier ⟨21, ⟨28, 29⟩, {}⟩)]]

/-- Code is accepted as an argument, but not as an alternative, and the untyped
grammar after it is not reported. -/
theorem misplacedTree_rejected :
    misplacedTree.FitsSource misplacedSettings.source ∧ ¬misplacedTree.WellFormed ∧
      ∃ others, misplacedTree.faults misplacedSettings.source =
        { cause := .misplaced .code, span := ⟨19, 20⟩ } :: others := by
  have fits : misplacedTree.FitsSource misplacedSettings.source := by decide
  have failed : failure? (analyze misplacedSettings.source misplacedTree) =
      some (.violation (.misplaced .code) ⟨19, 20⟩) := by
    decide
  obtain ⟨accepts, reports⟩ :=
    analysis_accepts_exactly_wellFormed misplacedSettings misplacedTree fits
  have malformed : ¬misplacedTree.WellFormed := by
    rw [← accepts, ← failure?_eq_none_iff, failed]
    nofun
  obtain ⟨⟨cause, span⟩, others, _, met, reported, _⟩ := reports malformed
  rw [failure?_eq_some_iff.mp failed] at reported
  cases reported
  exact ⟨fits, malformed, others, met⟩

end GrammarCompiler
