import GrammarCompiler.Proofs.Acceptance

/-!
# Analysis under other tags

A retagging gives every node another tag with the same span; the new number depends
on the old one alone.  If under every tag the same is read as before, then analysis
fails as before, or it gives the tables from before with the new numbers.  There is
one lemma for each function of the analysis, from reading a tag up to the whole
file.
-/

namespace GrammarCompiler

/-- A change of tags that keeps the spans and changes each number by itself. -/
structure Retagging where
  change : Tag → Tag
  number : Nat → Nat
  id_change (tag : Tag) : (change tag).id = number tag.id
  span_change (tag : Tag) : (change tag).span = tag.span

namespace Retagging

/-- The same is read under the changed tag. -/
structure Keeps (retagging : Retagging) (source : String) (tag : Tag) : Prop where
  text : (retagging.change tag).text? source = tag.text? source
  position : (retagging.change tag).position source = tag.position source

/-- The same is read under all changed tags of a tree. -/
def KeepsReadings (retagging : Retagging) (source : String) (tree : Node) : Prop :=
  ∀ tag ∈ tree.tags, retagging.Keeps source tag

variable {retagging : Retagging} {source : String}

theorem Keeps.read
    {tag : Tag}
    (keeps : retagging.Keeps source tag) :
    (retagging.change tag).read source = tag.read source := by
  rw [Tag.read, Tag.read, keeps.text, retagging.span_change]

theorem Keeps.readTrimmed
    {tag : Tag}
    (keeps : retagging.Keeps source tag) :
    (retagging.change tag).readTrimmed source = tag.readTrimmed source := by
  rw [Tag.readTrimmed, Tag.readTrimmed, keeps.read]

theorem KeepsReadings.tag
    {tree : Node}
    (keeps : retagging.KeepsReadings source tree) :
    retagging.Keeps source tree.tag :=
  keeps tree.tag (Node.tag_mem_tags tree)

theorem KeepsReadings.child
    {node child : Node}
    (keeps : retagging.KeepsReadings source node)
    (isChild : child ∈ node.children) :
    retagging.KeepsReadings source child := by
  intro tag member
  exact keeps tag (Node.tags_subset_of_mem_children isChild member)

theorem KeepsReadings.flatten
    {tree : Node}
    (keeps : retagging.KeepsReadings source tree)
    (flattening : Flattening) :
    retagging.KeepsReadings source (tree.flatten flattening) := by
  intro tag member
  exact keeps tag ((Node.tags_flatten_sublist flattening tree).subset member)

end Retagging

/-! ## Steps that agree up to a view of their results -/

/-- Steps for changed inputs that give the views of the former outputs do so for
all inputs together. -/
theorem mapM_map_eq_map
    {step : α → Except ε β}
    {step' : α' → Except ε β'}
    {change : α → α'}
    {view : β → β'}
    {inputs : List α}
    (commutes : ∀ input ∈ inputs, step' (change input) = (step input).map view) :
    (inputs.map change).mapM step' = (inputs.mapM step).map (List.map view) := by
  induction inputs with
  | nil => rfl
  | cons input inputs inductionHypothesis =>
      obtain ⟨first, others⟩ := List.forall_mem_cons.mp commutes
      rw [List.map_cons, List.mapM_cons, List.mapM_cons, first, inductionHypothesis others]
      cases step input with
      | error failure => rfl
      | ok output => cases inputs.mapM step <;> rfl

/-- Steps for changed inputs that give the former outputs do so for all inputs
together. -/
theorem mapM_map_eq
    {step : α → Except ε β}
    {step' : α' → Except ε β}
    {change : α → α'}
    {inputs : List α}
    (same : ∀ input ∈ inputs, step' (change input) = step input) :
    (inputs.map change).mapM step' = inputs.mapM step := by
  induction inputs with
  | nil => rfl
  | cons input inputs inductionHypothesis =>
      obtain ⟨first, others⟩ := List.forall_mem_cons.mp same
      rw [List.map_cons, List.mapM_cons, List.mapM_cons, first, inductionHypothesis others]

/-! ## New numbers in tables -/

/-- The same occurrence under another number. -/
def Occurrence.renumber (number : Nat → Nat) : Occurrence → Occurrence
  | .identifier id name => .identifier (number id) name
  | .callee id name => .callee (number id) name
  | .argument id text => .argument (number id) text
  | .binding name => .binding name

/-- The same scope with other numbers. -/
def Scope.renumber (number : Nat → Nat) (scope : Scope) : Scope :=
  { scope with
    identifiers := scope.identifiers.map (Prod.map number id)
    callees := scope.callees.map (Prod.map number id)
    arguments := scope.arguments.map (Prod.map number id) }

/-- The same definition of a rule with other numbers. -/
def Alternative.renumber (number : Nat → Nat) (alternative : Alternative) : Alternative :=
  { alternative with
    ruleId := number alternative.ruleId
    scope := alternative.scope.renumber number }

/-- The same definitions of a rule with other numbers. -/
def AlternativeSet.renumber (number : Nat → Nat) (set : AlternativeSet) : AlternativeSet :=
  { set with alternatives := set.alternatives.map (Alternative.renumber number) }

/-- The same rule table with other numbers. -/
def RuleTable.renumber (number : Nat → Nat) (table : RuleTable) : RuleTable :=
  { sets := table.sets.map (AlternativeSet.renumber number) }

/-- The same grammar with other numbers. -/
def GrammarAnalysis.renumber (number : Nat → Nat) (grammar : GrammarAnalysis) :
    GrammarAnalysis :=
  { grammar with
    nodeId := number grammar.nodeId
    rules := grammar.rules.renumber number }

/-- The same analyzer with other numbers. -/
def Analyzer.renumber (number : Nat → Nat) (analyzer : Analyzer) : Analyzer :=
  { analyzer with grammars := analyzer.grammars.map (GrammarAnalysis.renumber number) }

/-- The same analysis with other numbers. -/
def Analysis.renumber (number : Nat → Nat) (analysis : Analysis) : Analysis :=
  { analysis with
    grammars := analysis.grammars.map (GrammarAnalysis.renumber number)
    resolutions := analysis.resolutions.map (Prod.map number id)
    arguments := analysis.arguments.map (Prod.map number id) }

section

variable (number : Nat → Nat)

namespace Occurrence

theorem ruleName?_renumber (occurrence : Occurrence) :
    (occurrence.renumber number).ruleName? = occurrence.ruleName? := by
  cases occurrence with
  | identifier id name => cases name <;> rfl
  | callee id name => cases name <;> rfl
  | _ => rfl

end Occurrence

namespace Scope

theorem record_renumber
    (scope : Scope)
    (occurrence : Occurrence) :
    (scope.renumber number).record (occurrence.renumber number) =
      (scope.record occurrence).renumber number := by
  cases occurrence with
  | identifier id name => cases name <;> simp [Occurrence.renumber, record, renumber, addReference]
  | callee id name => simp [Occurrence.renumber, record, renumber]
  | argument id text => simp [Occurrence.renumber, record, renumber]
  | binding name => rfl

theorem ofOccurrences_map_renumber (occurrences : List Occurrence) :
    ofOccurrences (occurrences.map (Occurrence.renumber number)) =
      (ofOccurrences occurrences).renumber number := by
  have ofScope (scope : Scope) :
      (occurrences.map (Occurrence.renumber number)).foldl record (scope.renumber number) =
        (occurrences.foldl record scope).renumber number := by
    induction occurrences generalizing scope with
    | nil => rfl
    | cons occurrence occurrences inductionHypothesis =>
        rw [List.map_cons, List.foldl_cons, record_renumber, inductionHypothesis,
          List.foldl_cons]
  exact ofScope {}

theorem resolutions_renumber
    (scope : Scope)
    (ruleNames : NameSet) :
    (scope.renumber number).resolutions ruleNames =
      (scope.resolutions ruleNames).map (Prod.map number id) := by
  simp only [resolutions, renumber, List.map_append, List.map_map]
  rfl

theorem argumentKinds_renumber
    (scope : Scope)
    (ruleNames : NameSet) :
    (scope.renumber number).argumentKinds ruleNames =
      (scope.argumentKinds ruleNames).map (Prod.map number id) := by
  simp only [argumentKinds, renumber, List.map_map]
  rfl

end Scope

theorem AlternativeSet.settle_renumber
    (set : AlternativeSet)
    (ruleNames : NameSet) :
    (set.renumber number).settle ruleNames = (set.settle ruleNames).renumber number := by
  simp only [settle, renumber, List.map_map, List.all_map]
  rfl

namespace RuleTable

theorem addTo_map_renumber
    (name : String)
    (alternative : Alternative)
    (sets : List AlternativeSet) :
    addTo name (alternative.renumber number) (sets.map (AlternativeSet.renumber number)) =
      (addTo name alternative sets).map (AlternativeSet.renumber number) := by
  induction sets with
  | nil => rfl
  | cons set sets inductionHypothesis =>
      by_cases same : set.name = name
      · simp [addTo, AlternativeSet.renumber, same]
      · have same' : (set.renumber number).name ≠ name := same
        rw [List.map_cons, addTo, if_neg same', addTo, if_neg same, inductionHypothesis,
          List.map_cons]

theorem ofDefinitions_map_renumber (definitions : List (String × Alternative)) :
    ofDefinitions (definitions.map (Prod.map id (Alternative.renumber number))) =
      (ofDefinitions definitions).renumber number := by
  have ofTable (table : RuleTable) :
      (definitions.map (Prod.map id (Alternative.renumber number))).foldl
          (fun table definition => table.add definition.1 definition.2) (table.renumber number) =
        (definitions.foldl (fun table definition => table.add definition.1 definition.2)
          table).renumber number := by
    induction definitions generalizing table with
    | nil => rfl
    | cons definition definitions inductionHypothesis =>
        rw [List.map_cons, List.foldl_cons, List.foldl_cons, ← inductionHypothesis]
        congr 1
        exact congrArg RuleTable.mk
          (addTo_map_renumber number definition.1 definition.2 table.sets)
  exact ofTable {}

theorem settle_renumber
    (table : RuleTable)
    (ruleNames : NameSet) :
    (table.renumber number).settle ruleNames = (table.settle ruleNames).renumber number := by
  simp only [settle, renumber, List.map_map, mk.injEq]
  exact List.map_congr_left fun set _ => set.settle_renumber number ruleNames

end RuleTable

namespace GrammarAnalysis

theorem settle_renumber
    (grammar : GrammarAnalysis)
    (ruleNames : NameSet) :
    (grammar.renumber number).settle ruleNames = (grammar.settle ruleNames).renumber number := by
  rw [settle, renumber, RuleTable.settle_renumber]
  rfl

theorem scopes_renumber (grammar : GrammarAnalysis) :
    (grammar.renumber number).scopes = grammar.scopes.map (Scope.renumber number) := by
  simp only [scopes, renumber, RuleTable.renumber, List.flatMap_map, List.map_flatMap,
    AlternativeSet.renumber, List.map_map]
  rfl

end GrammarAnalysis

theorem Analyzer.finish_renumber (analyzer : Analyzer) :
    (analyzer.renumber number).finish = analyzer.finish.renumber number := by
  simp only [finish, renumber, Analysis.renumber, List.flatMap_map, List.map_flatMap,
    List.map_map, List.flatMap_assoc, GrammarAnalysis.scopes_renumber,
    Scope.resolutions_renumber, Scope.argumentKinds_renumber, Analysis.mk.injEq, and_true,
    true_and]
  exact List.map_congr_left fun grammar _ => grammar.settle_renumber number _

end

/-! ## Mentions and definitions -/

section

variable (retagging : Retagging)

/-- The same mention under another tag. -/
def Mention.retag : Mention → Mention
  | .identifier tag => .identifier (retagging.change tag)
  | .callee id name => .callee (retagging.number id) (retagging.change name)
  | .argument tag => .argument (retagging.change tag)
  | .binding captured => .binding (retagging.change captured)
  | .misplaced kind tag => .misplaced kind (retagging.change tag)

/-- The same definition under another tag. -/
def Definition.retag (definition : Definition) : Definition where
  id := retagging.number definition.id
  isOverride := definition.isOverride
  name := retagging.change definition.name
  mentions := definition.mentions.map (Mention.retag retagging)

namespace Node

@[simp] theorem span_mapTags (node : Node) :
    (node.mapTags retagging.change).span = node.span := by
  rw [span, tag_mapTags, retagging.span_change, span]

theorem isExpression_mapTags
    (change : Tag → Tag)
    (node : Node) :
    (node.mapTags change).isExpression = node.isExpression := by
  rw [isExpression, isExpression, kind_mapTags]

theorem mentions_mapTags (node : Node) :
    (node.mapTags retagging.change).mentions = node.mentions.map (Mention.retag retagging) := by
  induction node with
  | call tag name arguments _ ofArguments =>
      simp only [mapTags, mentions, mapTagsAll_eq_map, argumentMentions_eq_flatMap, List.map_cons,
        List.flatMap_map, List.map_flatMap, Mention.retag, tag_mapTags, retagging.id_change]
      congr 1
      refine List.flatMap_congr fun argument member => ?_
      rw [isExpression_mapTags, ofArguments argument member]
      split <;> rfl
  | binding tag operand captured ofOperand _ =>
      simp only [mapTags, mentions, ofOperand, List.map_cons, Mention.retag, tag_mapTags]
  | unary tag operator operand ofOperand => simp only [mapTags, mentions, ofOperand]
  | condition tag operand other ofOperand _
  | action tag operand other ofOperand _ => simp only [mapTags, mentions, ofOperand]
  | sequence tag members ofMembers
  | choice tag members ofMembers =>
      simp only [mapTags, mentions, mapTagsAll_eq_map, mentionsAll_eq_flatMap, List.flatMap_map,
        List.map_flatMap]
      exact List.flatMap_congr ofMembers
  | declaration tag name base? => cases base? <;> simp [mapTags, mentions, Mention.retag]
  | rule tag isOverride name params? body =>
      cases params? <;> simp [mapTags, mentions, Mention.retag]
  | _ => simp [mapTags, mentions, Mention.retag]

theorem definitions_mapTags (node : Node) :
    (node.mapTags retagging.change).definitions =
      node.definitions.map (Definition.retag retagging) := by
  induction node using childInduction with
  | step node ofChildren =>
      by_cases isRule : node.kind = .rule
      · cases node with
        | rule tag isOverride name params? body =>
            cases params? <;>
              simp [mapTags, definitions, Definition.retag, mentions_mapTags, retagging.id_change]
        | _ => cases isRule
      · have isRule' : (node.mapTags retagging.change).kind ≠ .rule := by
          rwa [kind_mapTags]
        rw [definitions_eq_flatMap_children isRule, definitions_eq_flatMap_children isRule',
          children_mapTags, List.flatMap_map, List.map_flatMap]
        exact List.flatMap_congr ofChildren

theorem definitionsAll_map_mapTags (nodes : List Node) :
    definitionsAll (nodes.map (mapTags retagging.change)) =
      (definitionsAll nodes).map (Definition.retag retagging) := by
  simp only [definitionsAll_eq_flatMap, List.flatMap_map, List.map_flatMap, definitions_mapTags]

theorem tag_mem_tags_of_mem_mentions
    {node : Node}
    {mention : Mention}
    (member : mention ∈ node.mentions) :
    mention.tag ∈ node.tags := by
  obtain ⟨inner, inNode, own⟩ := mem_mentions_iff.mp member
  exact tags_subset_of_inExpression inNode (tag_mem_tags_of_ownMentions own)

end Node

end

namespace Definition

/-- The same is read of a definition under changed tags. -/
structure KeepsReadings
    (retagging : Retagging)
    (source : String)
    (definition : Definition) : Prop where
  name : retagging.Keeps source definition.name
  mentions : ∀ mention ∈ definition.mentions, retagging.Keeps source mention.tag

end Definition

section

variable {retagging : Retagging} {source : String}

theorem Retagging.KeepsReadings.definition
    {node : Node}
    (keeps : retagging.KeepsReadings source node)
    {definition : Definition}
    (isDefinition : definition ∈ node.definitions) :
    definition.KeepsReadings retagging source := by
  induction node using Node.childInduction with
  | step node ofChildren =>
      by_cases isRule : node.kind = .rule
      · cases node with
        | rule tag isOverride name params? body =>
            obtain ⟨only, single⟩ := Node.exists_definitions_eq_singleton isRule
            rw [single, List.mem_singleton] at isDefinition
            subst isDefinition
            constructor
            · have sameName : definition.name = name.tag := by
                cases params? <;> rw [Node.definitions, List.singleton_inj] at single <;>
                  rw [← single]
              rw [sameName]
              exact (keeps.child List.mem_cons_self).tag
            · intro mention isMention
              rw [Node.mentions_eq_flatMap_ruleExpressions isRule single] at isMention
              obtain ⟨expression, isExpression, inExpression⟩ := List.mem_flatMap.mp isMention
              have isChild := (Node.ruleExpressions_sublist_children _).subset isExpression
              exact keeps.child isChild _ (Node.tag_mem_tags_of_mem_mentions inExpression)
        | _ => cases isRule
      · rw [Node.definitions_eq_flatMap_children isRule] at isDefinition
        obtain ⟨child, isChild, inChild⟩ := List.mem_flatMap.mp isDefinition
        exact ofChildren child isChild (keeps.child isChild) inChild

namespace Mention

theorem read_retag
    {mention : Mention}
    (keeps : retagging.Keeps source mention.tag) :
    (mention.retag retagging).read source =
      (mention.read source).map (Occurrence.renumber retagging.number) := by
  cases mention with
  | identifier tag =>
      have sameText : (retagging.change tag).read source = tag.read source := keeps.read
      rw [retag, read, read, sameText, retagging.id_change]
      cases tag.read source <;> rfl
  | callee id name =>
      have sameText : (retagging.change name).read source = name.read source := keeps.read
      rw [retag, read, read, sameText]
      cases name.read source <;> rfl
  | argument tag =>
      have sameText : (retagging.change tag).readTrimmed source = tag.readTrimmed source :=
        keeps.readTrimmed
      rw [retag, read, read, sameText, retagging.id_change]
      cases tag.readTrimmed source <;> rfl
  | binding captured =>
      have sameText : (retagging.change captured).readTrimmed source =
          captured.readTrimmed source :=
        keeps.readTrimmed
      rw [retag, read, read, sameText]
      cases captured.readTrimmed source <;> rfl
  | misplaced kind tag =>
      rw [retag, read, read, retagging.span_change]
      rfl

theorem readable_map_retag
    {mentions : List Mention}
    (keeps : ∀ mention ∈ mentions, retagging.Keeps source mention.tag) :
    readable source (mentions.map (retag retagging)) =
      (readable source mentions).map (Occurrence.renumber retagging.number) := by
  induction mentions with
  | nil => rfl
  | cons mention mentions inductionHypothesis =>
      obtain ⟨first, others⟩ := List.forall_mem_cons.mp keeps
      rw [List.map_cons, readable, readable, read_retag first, inductionHypothesis others]
      cases mention.read source <;> rfl

end Mention

theorem Definition.scope_retag
    {definition : Definition}
    (keeps : definition.KeepsReadings retagging source) :
    (definition.retag retagging).scope source =
      (definition.scope source).map (Scope.renumber retagging.number) := by
  have read := mapM_map_eq_map fun mention member =>
    Mention.read_retag (keeps.mentions mention member)
  rw [scope, scope, retag, read]
  cases definition.mentions.mapM (Mention.read source) with
  | error failure => rfl
  | ok occurrences =>
      exact congrArg Except.ok (Scope.ofOccurrences_map_renumber retagging.number occurrences)

/-! ## Declarations -/

namespace Declaration

/-- Only a generic name gives types. -/
theorem nameAndTypes_of_kind_ne
    {node : Node}
    (different : node.kind ≠ .genericName) :
    nameAndTypes source node = (node.tag.readTrimmed source).map fun name => (name, none) := by
  cases node with
  | genericName tag name parameters => exact absurd rfl different
  | _ => rfl

theorem nameAndTypes_mapTags
    {node : Node}
    (keeps : retagging.KeepsReadings source node) :
    nameAndTypes source (node.mapTags retagging.change) = nameAndTypes source node := by
  by_cases isGeneric : node.kind = .genericName
  · have ofChild {child : Node} (isChild : child ∈ node.children) :
        (child.mapTags retagging.change).tag.readTrimmed source =
          child.tag.readTrimmed source := by
      rw [Node.tag_mapTags]
      exact (keeps.child isChild).tag.readTrimmed
    cases node with
    | genericName tag name parameters =>
        have ofName := ofChild List.mem_cons_self
        rw [Node.mapTags, Node.mapTagsAll_eq_map]
        obtain _ | ⟨input, _ | ⟨result, _ | ⟨third, others⟩⟩⟩ := parameters
        · simp only [List.map_nil, nameAndTypes, ofName]
        · simp only [List.map_cons, List.map_nil, nameAndTypes, ofName]
        · have ofInput := ofChild (.tail _ List.mem_cons_self)
          have ofResult := ofChild (.tail _ (.tail _ List.mem_cons_self))
          simp only [List.map_cons, List.map_nil, nameAndTypes, ofName, ofInput, ofResult]
        · simp only [List.map_cons, nameAndTypes, ofName]
    | _ => cases isGeneric
  · have isGeneric' : (node.mapTags retagging.change).kind ≠ .genericName := by
      rwa [Node.kind_mapTags]
    rw [nameAndTypes_of_kind_ne isGeneric, nameAndTypes_of_kind_ne isGeneric', Node.tag_mapTags,
      keeps.tag.readTrimmed]

theorem ofNode_mapTags
    {header : Node}
    (keeps : retagging.KeepsReadings source header) :
    ofNode source (header.mapTags retagging.change) = ofNode source header := by
  have sameViolation (node : Node) : Failure.violation (.notDeclaration
      (node.mapTags retagging.change).kind) (node.mapTags retagging.change).span =
        .violation (.notDeclaration node.kind) node.span := by
    rw [Node.kind_mapTags, Node.span_mapTags]
  cases header with
  | declaration tag name base? =>
      have ofName := nameAndTypes_mapTags (keeps.child List.mem_cons_self)
      cases base? with
      | none =>
          simp only [Node.mapTags, ofNode, ofName, typesOf, baseOf, retagging.span_change]
      | some base =>
          have keepsBase := keeps.child (.tail _ List.mem_cons_self)
          have ofTypes (own? : Option (String × String)) :
              typesOf source own? (some (base.mapTags retagging.change)) =
                typesOf source own? (some base) := by
            cases own? with
            | none => rw [typesOf, typesOf, nameAndTypes_mapTags keepsBase]
            | some types => rfl
          simp only [Node.mapTags, ofNode, ofName, ofTypes, baseOf, Node.tag_mapTags,
            keepsBase.tag.readTrimmed, retagging.span_change]
  | rule tag isOverride name params? body =>
      cases params? <;> exact congrArg Except.error (sameViolation _)
  | _ => exact congrArg Except.error (sameViolation _)

end Declaration

/-! ## The analyzer -/

namespace Analyzer

theorem importedBy_map_mapTags
    {nodes : List Node}
    (keeps : ∀ node ∈ nodes, retagging.KeepsReadings source node) :
    importedBy source (nodes.map (Node.mapTags retagging.change)) = importedBy source nodes := by
  induction nodes with
  | nil => rfl
  | cons node nodes inductionHypothesis =>
      obtain ⟨first, others⟩ := List.forall_mem_cons.mp keeps
      have rest := inductionHypothesis others
      cases node with
      | usingDirective tag target =>
          simp only [List.map_cons, Node.mapTags, importedBy, rest, Node.tag_mapTags,
            (first.child List.mem_cons_self).tag.readTrimmed]
      | declaration tag name base? => cases base? <;> exact rest
      | rule tag isOverride name params? body => cases params? <;> exact rest
      | _ => exact rest

section

variable {definitions : List Definition}
variable (keeps : ∀ definition ∈ definitions, definition.KeepsReadings retagging source)

include keeps

theorem definitionNames_map_retag :
    definitionNames source (definitions.map (Definition.retag retagging)) =
      definitionNames source definitions :=
  mapM_map_eq fun definition member => (keeps definition member).name.readTrimmed

theorem namesMadeKnown_map_retag (names : List String) :
    namesMadeKnown source (definitions.map (Definition.retag retagging)) names =
      namesMadeKnown source definitions names := by
  have mentions : (definitions.map (Definition.retag retagging)).flatMap (·.mentions) =
      (definitions.flatMap (·.mentions)).map (Mention.retag retagging) := by
    rw [List.flatMap_map, List.map_flatMap]
    rfl
  have keepsMentions : ∀ mention ∈ definitions.flatMap (·.mentions),
      retagging.Keeps source mention.tag := by
    intro mention member
    obtain ⟨definition, isDefinition, isMention⟩ := List.mem_flatMap.mp member
    exact (keeps definition isDefinition).mentions mention isMention
  rw [namesMadeKnown, mentions, Mention.readable_map_retag keepsMentions, List.filterMap_map,
    namesMadeKnown]
  congr 1
  exact List.filterMap_congr fun occurrence _ =>
    Occurrence.ruleName?_renumber retagging.number occurrence

theorem ruleTable_map_retag (names : List String) :
    ruleTable source (definitions.map (Definition.retag retagging)) names =
      (ruleTable source definitions names).map (RuleTable.renumber retagging.number) := by
  have read := mapM_map_eq_map fun definition member =>
    Definition.scope_retag (keeps definition member)
  rw [ruleTable, ruleTable, read]
  cases definitions.mapM (Definition.scope source) with
  | error failure => rfl
  | ok scopes =>
      refine congrArg Except.ok ?_
      rw [← RuleTable.ofDefinitions_map_renumber, ← List.zip_map_right, List.map_zipWith,
        List.zipWith_map]
      rfl

end

/-- The walk of a grammar gives the same grammar with other numbers, or it fails as
before. -/
theorem walkGrammar_mapTags
    {node : Node}
    (keeps : retagging.KeepsReadings source node)
    (known : NameSet) :
    walkGrammar source known (node.mapTags retagging.change) =
      ((walkGrammar source known node).1,
        (walkGrammar source known node).2.map (GrammarAnalysis.renumber retagging.number)) := by
  have otherKind (other : Node) :
      (known, (.error (.violation (.notGrammar (other.mapTags retagging.change).kind)
        (other.mapTags retagging.change).span) : Except Failure GrammarAnalysis)) =
      (known, .error (.violation (.notGrammar other.kind) other.span)) := by
    rw [Node.kind_mapTags, Node.span_mapTags]
  cases node with
  | grammar tag header body =>
      have keepsDefinitions : ∀ definition ∈ Node.definitionsAll body,
          definition.KeepsReadings retagging source := by
        intro definition member
        rw [Node.definitionsAll_eq_flatMap] at member
        obtain ⟨item, inBody, inItem⟩ := List.mem_flatMap.mp member
        exact (keeps.child (.tail _ inBody)).definition inItem
      rw [Node.mapTags, walkGrammar, walkGrammar,
        Declaration.ofNode_mapTags (keeps.child List.mem_cons_self)]
      cases Declaration.ofNode source header with
      | error failure => rfl
      | ok declaration =>
          simp only [Node.mapTagsAll_eq_map, Node.definitionsAll_map_mapTags,
            definitionNames_map_retag keepsDefinitions, namesMadeKnown_map_retag keepsDefinitions,
            ruleTable_map_retag keepsDefinitions, retagging.id_change]
          cases definitionNames source (Node.definitionsAll body) with
          | error failure => rfl
          | ok names =>
              dsimp only
              cases ruleTable source (Node.definitionsAll body) names <;> rfl
  | declaration tag name base? => cases base? <;> exact otherKind _
  | rule tag isOverride name params? body => cases params? <;> exact otherKind _
  | _ => exact otherKind _

theorem walkGrammars_map_mapTags
    {nodes : List Node}
    (keeps : ∀ node ∈ nodes, retagging.KeepsReadings source node)
    (analyzer : Analyzer) :
    walkGrammars source (analyzer.renumber retagging.number)
        (nodes.map (Node.mapTags retagging.change)) =
      ((walkGrammars source analyzer nodes).1.renumber retagging.number,
        (walkGrammars source analyzer nodes).2) := by
  induction nodes generalizing analyzer with
  | nil => rfl
  | cons node nodes inductionHypothesis =>
      obtain ⟨first, others⟩ := List.forall_mem_cons.mp keeps
      have sameNames : (analyzer.renumber retagging.number).ruleNames = analyzer.ruleNames := rfl
      rw [List.map_cons, walkGrammars, walkGrammars, sameNames, walkGrammar_mapTags first]
      obtain ⟨ruleNames, outcome⟩ := walkGrammar source analyzer.ruleNames node
      cases outcome with
      | error failure => rfl
      | ok grammar =>
          have added : (analyzer.renumber retagging.number).grammars ++
              [grammar.renumber retagging.number] =
                (analyzer.grammars ++ [grammar]).map
                  (GrammarAnalysis.renumber retagging.number) := by
            rw [List.map_append]
            rfl
          simp only [Except.map, added]
          exact inductionHypothesis others
            { analyzer with ruleNames, grammars := analyzer.grammars ++ [grammar] }

/-- An analyzer walks a tree under other tags to the same end, up to numbers. -/
theorem analyze_mapTags
    {tree : Node}
    (keeps : retagging.KeepsReadings source tree)
    (analyzer : Analyzer) :
    (analyzer.renumber retagging.number).analyze source (tree.mapTags retagging.change) =
      ((analyzer.analyze source tree).1.renumber retagging.number,
        (analyzer.analyze source tree).2) := by
  have otherKind (other : Node) :
      (analyzer.renumber retagging.number,
        some (Failure.violation (.rootNotFile (other.mapTags retagging.change).kind)
          (other.mapTags retagging.change).span)) =
      (analyzer.renumber retagging.number,
        some (Failure.violation (.rootNotFile other.kind) other.span)) := by
    rw [Node.kind_mapTags, Node.span_mapTags]
  cases tree with
  | file tag preamble grammars =>
      have keepsPreamble : ∀ node ∈ preamble, retagging.KeepsReadings source node :=
        fun node member => keeps.child (List.mem_append_left _ member)
      have keepsGrammars : ∀ node ∈ grammars, retagging.KeepsReadings source node :=
        fun node member => keeps.child (List.mem_append_right _ member)
      simp only [Node.mapTags, Node.mapTagsAll_eq_map, analyze,
        importedBy_map_mapTags keepsPreamble]
      cases importedBy source preamble with
      | error failure => rfl
      | ok imported =>
          exact walkGrammars_map_mapTags keepsGrammars
            { analyzer with imports := missingImports imported }
  | declaration tag name base? => cases base? <;> exact otherKind _
  | rule tag isOverride name params? body => cases params? <;> exact otherKind _
  | _ => exact otherKind _

end Analyzer

/-- The analysis of a tree under other tags is that of the tree with other numbers,
or it fails as before. -/
theorem analyze_mapTags_eq
    {tree : Node}
    (keeps : retagging.KeepsReadings source tree) :
    analyze source (tree.mapTags retagging.change) =
      (analyze source tree).map (Analysis.renumber retagging.number) := by
  have walked := Analyzer.analyze_mapTags keeps {}
  have fresh : ({} : Analyzer).renumber retagging.number = {} := rfl
  rw [fresh] at walked
  rw [analyze, analyze, walked]
  obtain ⟨analyzer, outcome⟩ := ({} : Analyzer).analyze source tree
  cases outcome with
  | none => exact congrArg Except.ok (analyzer.finish_renumber retagging.number)
  | some failure => rfl

end
end GrammarCompiler
