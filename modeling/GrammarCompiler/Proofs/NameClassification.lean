import GrammarCompiler.Proofs.TableEntries
import GrammarCompiler.Proofs.WrittenNames

/-!
# The classification of names is exact

A successful analysis of a tree with distinct numbers knows as rule names what
the rules of the file are called and what is written with a dot in them.  It
resolves the identifiers and calls in expression position and no other node, and
it classifies the arguments of those calls and no other node.  Names are judged
by all rule names of the file, wherever they are declared.
-/

namespace GrammarCompiler

open WrittenName (IsQualified CallsRule)

namespace Node

/-- The tag under which an identifier or a call spells a name. -/
def spelledTag? : Node → Option Tag
  | identifier tag => some tag
  | call _ name _ => some name.tag
  | _ => none

/-- A name that may be a variable of a rule: a bare identifier or a bound name
in expression position. -/
inductive HasLocal (source : String) (rule : Node) : String → Prop where
  | reference {tag : Tag} {text : String} :
      rule.InRule (identifier tag) → tag.read source = .ok text → ¬IsQualified text →
        HasLocal source rule (Text.trim text)
  | bound {tag : Tag} {operand captured : Node} {name : String} :
      rule.InRule (binding tag operand captured) → captured.tag.readTrimmed source = .ok name →
        HasLocal source rule name

end Node

/-- What an identifier stands for, given all rule names of the file. -/
inductive Resolution.OfIdentifier (ruleNames : NameSet) (text : String) : Resolution → Prop where
  | known :
      ¬IsQualified text → Text.trim text ∈ ruleNames →
        OfIdentifier ruleNames text (.rule (Text.trim text) false)
  | unknown :
      ¬IsQualified text → Text.trim text ∉ ruleNames →
        OfIdentifier ruleNames text (.slot (Text.trim text))
  | qualified {name : String} {bypass : Bool} :
      IsQualified text → CallsRule text name bypass →
        OfIdentifier ruleNames text (.rule name bypass)

/-- What a call stands for: a rule, known or not. -/
inductive Resolution.OfCallee (text : String) : Resolution → Prop where
  | rule {name : String} {bypass : Bool} :
      CallsRule text name bypass → OfCallee text (.rule name bypass)

/-- How a rule passes an argument, given all rule names of the file. -/
inductive ArgumentKind.OfArgument
    (source : String)
    (ruleNames : NameSet)
    (rule : Node)
    (text : String) : ArgumentKind → Prop where
  | rule :
      text ∈ ruleNames → OfArgument source ruleNames rule text .rule
  | slot :
      text ∉ ruleNames → rule.HasLocal source text →
        OfArgument source ruleNames rule text .slot
  | value :
      text ∉ ruleNames → ¬rule.HasLocal source text →
        OfArgument source ruleNames rule text .value

/-- The tables of an analysis hold what they must about the names of a file, and
nothing else. -/
structure NamesClassified
    (source : String)
    (tree : Node)
    (analysis : Analysis) : Prop where
  /-- Rule names are the names of rules and the qualified names in them. -/
  ruleNames (name : String) :
    name ∈ analysis.ruleNames ↔
      (∃ tag isOverride nameNode params? body,
        tree.HasRule (.rule tag isOverride nameNode params? body) ∧
          nameNode.tag.readTrimmed source = .ok name) ∨
      ∃ rule node, tree.HasRule rule ∧ rule.InRule node ∧
        ∃ tag text bypass, node.spelledTag? = some tag ∧ tag.read source = .ok text ∧
          IsQualified text ∧ CallsRule text name bypass
  /-- Identifiers and calls in expression position are resolved. -/
  resolved (id : Nat) :
    (∃ resolution, analysis.resolution? id = some resolution) ↔
      ∃ rule node, tree.HasRule rule ∧ rule.InRule node ∧
        (node.kind = .identifier ∨ node.kind = .call) ∧ node.id = id
  identifiers {rule : Node} {tag : Tag} :
    tree.HasRule rule → rule.InRule (.identifier tag) →
      ∃ text resolution, tag.read source = .ok text ∧
        analysis.resolution? tag.id = some resolution ∧
          resolution.OfIdentifier analysis.ruleNames text
  callees {rule : Node} {tag : Tag} {name : Node} {arguments : List Node} :
    tree.HasRule rule → rule.InRule (.call tag name arguments) →
      ∃ text resolution, name.tag.read source = .ok text ∧
        analysis.resolution? tag.id = some resolution ∧ resolution.OfCallee text
  /-- Arguments of calls in expression position are classified. -/
  passed (id : Nat) :
    (∃ kind, analysis.argument? id = some kind) ↔
      ∃ rule tag name arguments, tree.HasRule rule ∧
        rule.InRule (.call tag name arguments) ∧ ∃ argument ∈ arguments, argument.id = id
  arguments {rule : Node} {tag : Tag} {name : Node} {arguments : List Node} {argument : Node} :
    tree.HasRule rule → rule.InRule (.call tag name arguments) → argument ∈ arguments →
      ∃ text kind, argument.tag.readTrimmed source = .ok text ∧
        analysis.argument? argument.id = some kind ∧
          kind.OfArgument source analysis.ruleNames rule text

/-! ## Rule names -/

namespace Occurrence

theorem ruleName?_identifier_iff
    {id : Nat}
    {written : WrittenName}
    {name : String} :
    (identifier id written).ruleName? = some name ↔
      ∃ bypass, written = .qualified name bypass := by
  cases written <;> simp [ruleName?]

theorem ruleName?_callee_iff
    {id : Nat}
    {written : WrittenName}
    {name : String} :
    (callee id written).ruleName? = some name ↔
      ∃ bypass, written = .qualified name bypass := by
  cases written <;> simp [ruleName?]

end Occurrence

namespace Mention

/-- The tag under which a mention spells the name of a rule or a variable. -/
def spelledTag? : Mention → Option Tag
  | .identifier tag => some tag
  | .callee _ name => some name
  | _ => none

/-- A mention makes a rule name known if it spells it with a dot. -/
theorem ruleName?_iff
    {source : String}
    {mention : Mention}
    {name : String} :
    (∃ occurrence, mention.read source = .ok occurrence ∧ occurrence.ruleName? = some name) ↔
      ∃ tag text bypass, mention.spelledTag? = some tag ∧ tag.read source = .ok text ∧
        IsQualified text ∧ CallsRule text name bypass := by
  cases mention with
  | identifier tag =>
      simp only [read_identifier_eq_ok, exists_exists_and_eq_and,
        Occurrence.ruleName?_identifier_iff, WrittenName.ofText_eq_qualified_iff,
        spelledTag?, Option.some.injEq, Tag.read_eq_ok]
      constructor
      · rintro ⟨text, isText, bypass, qualified, calls⟩
        exact ⟨tag, text, bypass, rfl, isText, qualified, calls⟩
      · rintro ⟨_, text, bypass, rfl, isText, qualified, calls⟩
        exact ⟨text, isText, bypass, qualified, calls⟩
  | callee id nameTag =>
      simp only [read_callee_eq_ok, exists_exists_and_eq_and,
        Occurrence.ruleName?_callee_iff, WrittenName.ofText_eq_qualified_iff,
        spelledTag?, Option.some.injEq, Tag.read_eq_ok]
      constructor
      · rintro ⟨text, isText, bypass, qualified, calls⟩
        exact ⟨nameTag, text, bypass, rfl, isText, qualified, calls⟩
      · rintro ⟨_, text, bypass, rfl, isText, qualified, calls⟩
        exact ⟨text, isText, bypass, qualified, calls⟩
  | argument tag =>
      simp [read_argument_eq_ok, Occurrence.ruleName?, spelledTag?]
  | binding captured =>
      simp [read_binding_eq_ok, Occurrence.ruleName?, spelledTag?]
  | misplaced kind tag =>
      simp [read, spelledTag?]

end Mention

namespace Node

theorem spelledTag?_eq_some_iff
    {node : Node}
    {tag : Tag} :
    node.spelledTag? = some tag ↔
      ∃ mention ∈ node.ownMentions, mention.spelledTag? = some tag := by
  cases node <;>
    simp [spelledTag?, ownMentions, isExpression, kind, Kind.isExpression, Mention.spelledTag?]

/-- The names of definitions are the names of rules. -/
theorem exists_definition_named_iff
    {source : String}
    {tree : Node}
    {name : String} :
    (∃ definition ∈ tree.fileDefinitions, definition.name.readTrimmed source = .ok name) ↔
      ∃ tag isOverride nameNode params? body,
        tree.HasRule (rule tag isOverride nameNode params? body) ∧
          nameNode.tag.readTrimmed source = .ok name := by
  have nameTag {tag : Tag} {isOverride : Bool} {nameNode : Node} {params? : Option Node}
      {body : Node} {definition : Definition}
      (single : (rule tag isOverride nameNode params? body).definitions = [definition]) :
      definition.name = nameNode.tag := by
    cases params? <;>
      rw [definitions, List.singleton_inj] at single <;>
      rw [← single]
  constructor
  · rintro ⟨definition, isDefinition, read⟩
    obtain ⟨rule, hasRule, single⟩ := mem_fileDefinitions_iff.mp isDefinition
    cases rule with
    | rule tag isOverride nameNode params? body =>
        rw [nameTag single] at read
        exact ⟨tag, isOverride, nameNode, params?, body, hasRule, read⟩
    | _ => cases hasRule.kind_eq
  · rintro ⟨tag, isOverride, nameNode, params?, body, hasRule, read⟩
    obtain ⟨definition, single⟩ := exists_definitions_eq_singleton hasRule.kind_eq
    rw [← nameTag single] at read
    exact ⟨definition, mem_fileDefinitions_iff.mpr ⟨_, hasRule, single⟩, read⟩

/-- An identifier or a call makes a rule name known if it is written with a
dot. -/
theorem exists_ownMention_ruleName?_iff
    {source : String}
    {node : Node}
    {name : String} :
    (∃ mention ∈ node.ownMentions, ∃ occurrence, mention.read source = .ok occurrence ∧
        occurrence.ruleName? = some name) ↔
      ∃ tag text bypass, node.spelledTag? = some tag ∧ tag.read source = .ok text ∧
        IsQualified text ∧ CallsRule text name bypass := by
  constructor
  · rintro ⟨mention, own, occurrence, read, found⟩
    obtain ⟨tag, text, bypass, spelled, isText, qualified, calls⟩ :=
      Mention.ruleName?_iff.mp ⟨occurrence, read, found⟩
    refine ⟨tag, text, bypass, ?_, isText, qualified, calls⟩
    rw [spelledTag?_eq_some_iff]
    exact ⟨mention, own, spelled⟩
  · rintro ⟨tag, text, bypass, spelled, isText, qualified, calls⟩
    obtain ⟨mention, own, spelledByMention⟩ := spelledTag?_eq_some_iff.mp spelled
    exact ⟨mention, own,
      Mention.ruleName?_iff.mpr ⟨tag, text, bypass, spelledByMention, isText, qualified, calls⟩⟩

end Node

namespace Analysis

variable {source : String} {tree : Node} {analysis : Analysis}

theorem mem_ruleNames_iff_written
    (analyzed : analyze source tree = .ok analysis)
    {name : String} :
    name ∈ analysis.ruleNames ↔
      (∃ tag isOverride nameNode params? body,
        tree.HasRule (.rule tag isOverride nameNode params? body) ∧
          nameNode.tag.readTrimmed source = .ok name) ∨
      ∃ rule node, tree.HasRule rule ∧ rule.InRule node ∧
        ∃ tag text bypass, node.spelledTag? = some tag ∧ tag.read source = .ok text ∧
          IsQualified text ∧ CallsRule text name bypass := by
  have named {definition : Definition} (isDefinition : definition ∈ tree.fileDefinitions) :
      definition.ruleName source = name ↔ definition.name.readTrimmed source = .ok name := by
    obtain ⟨read, isRead⟩ := (isReadable_of_mem_fileDefinitions analyzed isDefinition).name
    rw [isRead, Except.ok.injEq, Definition.ruleName, ← Tag.eq_trimmedText_of_readTrimmed isRead]
  have qualified {definition : Definition} (isDefinition : definition ∈ tree.fileDefinitions) :
      name ∈ definition.qualifiedNames source ↔
        ∃ mention ∈ definition.mentions, ∃ occurrence, mention.read source = .ok occurrence ∧
          occurrence.ruleName? = some name := by
    rw [Definition.qualifiedNames, List.mem_filterMap]
    exact Definition.exists_occurrence_iff
      (isReadable_of_mem_fileDefinitions analyzed isDefinition).mentions
  rw [mem_ruleNames_iff analyzed, ← Node.exists_definition_named_iff]
  simp only [← Node.exists_ownMention_ruleName?_iff, ← Node.exists_mention_iff]
  constructor
  · rintro ⟨definition, isDefinition, same | isQualified⟩
    · exact .inl ⟨definition, isDefinition, (named isDefinition).mp same⟩
    · exact .inr ⟨definition, isDefinition, (qualified isDefinition).mp isQualified⟩
  · rintro (⟨definition, isDefinition, read⟩ | ⟨definition, isDefinition, mentioned⟩)
    · exact ⟨definition, isDefinition, .inl ((named isDefinition).mpr read)⟩
    · exact ⟨definition, isDefinition, .inr ((qualified isDefinition).mpr mentioned)⟩

/-! ## Values -/

theorem ofIdentifier_resolveIdentifier
    (ruleNames : NameSet)
    (text : String) :
    (resolveIdentifier ruleNames (.ofText text)).OfIdentifier ruleNames text := by
  by_cases qualified : IsQualified text
  · obtain ⟨name, bypass, classified, calls⟩ := WrittenName.ofText_of_isQualified qualified
    rw [classified]
    exact .qualified qualified calls
  · rw [WrittenName.ofText_of_not_isQualified qualified, resolveIdentifier]
    split
    · next known => exact .known qualified ((NameSet.contains_iff _ _).mp known)
    · next unknown =>
        rw [NameSet.contains_iff] at unknown
        exact .unknown qualified unknown

theorem ofCallee_resolveCallee (text : String) :
    (resolveCallee (.ofText text)).OfCallee text :=
  .rule (WrittenName.callsRule_ofText text)

theorem ofArgument_argumentKind
    {ruleNames : NameSet}
    {scope : Scope}
    {rule : Node}
    {text : String}
    (isLocal : scope.contains text = true ↔ rule.HasLocal source text) :
    (argumentKind ruleNames scope text).OfArgument source ruleNames rule text := by
  unfold argumentKind
  split
  · next known => exact .rule ((NameSet.contains_iff _ _).mp known)
  · next unknown =>
      rw [NameSet.contains_iff] at unknown
      split
      · next inScope => exact .slot unknown (isLocal.mp inScope)
      · next notInScope => exact .value unknown fun hasLocal => notInScope (isLocal.mpr hasLocal)

/-- The scope of a rule's definition holds the names that may be its
variables. -/
theorem contains_occurrenceScope_iff
    {rule : Node}
    {definition : Definition}
    (hasRule : tree.HasRule rule)
    (single : rule.definitions = [definition])
    (readable : ∀ mention ∈ definition.mentions, mention.IsReadable source)
    {name : String} :
    (definition.occurrenceScope source).contains name = true ↔ rule.HasLocal source name := by
  have selected : (definition.occurrenceScope source).contains name = true ↔
      ∃ occurrence ∈ definition.occurrences source, occurrence.localName? = some name := by
    rw [Scope.contains, NameSet.contains_iff, Definition.occurrenceScope,
      Scope.ofOccurrences_eq, NameSet.mem_ofList, List.mem_filterMap]
  rw [selected, Definition.exists_occurrence_iff readable]
  constructor
  · rintro ⟨mention, isMention, occurrence, read, isLocal⟩
    obtain ⟨node, inRule, own⟩ :=
      (Node.mem_mentions_of_rule_iff hasRule.kind_eq single).mp isMention
    cases mention with
    | identifier tag =>
        obtain ⟨text, isText, rfl⟩ := Mention.read_identifier_eq_ok.mp read
        cases Node.identifier_mem_ownMentions_iff.mp own
        by_cases qualified : IsQualified text
        · obtain ⟨_, _, classified, _⟩ := WrittenName.ofText_of_isQualified qualified
          rw [classified] at isLocal
          cases isLocal
        · rw [WrittenName.ofText_of_not_isQualified qualified] at isLocal
          cases isLocal
          exact .reference inRule (Tag.read_eq_ok.mpr isText) qualified
    | callee id tag =>
        obtain ⟨text, _, rfl⟩ := Mention.read_callee_eq_ok.mp read
        cases isLocal
    | argument tag =>
        obtain ⟨text, _, rfl⟩ := Mention.read_argument_eq_ok.mp read
        cases isLocal
    | binding tag =>
        obtain ⟨text, isText, rfl⟩ := Mention.read_binding_eq_ok.mp read
        obtain ⟨_, _, captured, rfl, rfl⟩ := Node.binding_mem_ownMentions_iff.mp own
        cases isLocal
        exact .bound inRule (Tag.readTrimmed_eq_ok.mpr ⟨text, isText, rfl⟩)
    | misplaced kind tag => cases read
  · intro isLocal
    have mentioned {node : Node} (inRule : rule.InRule node) {mention : Mention}
        (own : mention ∈ node.ownMentions) : mention ∈ definition.mentions :=
      (Node.mem_mentions_of_rule_iff hasRule.kind_eq single).mpr ⟨node, inRule, own⟩
    cases isLocal with
    | reference inRule isText notQualified =>
        refine ⟨_, mentioned inRule (Node.identifier_mem_ownMentions_iff.mpr rfl), _,
          Mention.read_identifier_eq_ok.mpr ⟨_, Tag.read_eq_ok.mp isText, rfl⟩, ?_⟩
        rw [WrittenName.ofText_of_not_isQualified notQualified]
        rfl
    | bound inRule isText =>
        obtain ⟨text, found, rfl⟩ := Tag.readTrimmed_eq_ok.mp isText
        have isMention := mentioned inRule
          (Node.binding_mem_ownMentions_iff.mpr ⟨_, _, _, rfl, rfl⟩)
        exact ⟨_, isMention, _,
          Mention.read_binding_eq_ok.mpr ⟨text, found, rfl⟩, rfl⟩

/-! ## The tables -/

theorem exists_resolution_iff_position
    (analyzed : analyze source tree = .ok analysis)
    {id : Nat} :
    (∃ resolution, analysis.resolution? id = some resolution) ↔
      ∃ rule node, tree.HasRule rule ∧ rule.InRule node ∧
        (node.kind = .identifier ∨ node.kind = .call) ∧ node.id = id := by
  have atNode (node : Node) : (∃ mention ∈ node.ownMentions, mention.resolvedId? = some id) ↔
      (node.kind = .identifier ∨ node.kind = .call) ∧ node.id = id := by
    cases node <;>
      simp [Node.ownMentions, Node.isExpression, Node.kind, Kind.isExpression,
        Mention.resolvedId?, Node.id, Node.tag]
  rw [exists_resolution_iff analyzed, Node.exists_mention_iff]
  simp only [atNode]

theorem exists_argument_iff_position
    (analyzed : analyze source tree = .ok analysis)
    {id : Nat} :
    (∃ kind, analysis.argument? id = some kind) ↔
      ∃ rule tag name arguments, tree.HasRule rule ∧
        rule.InRule (.call tag name arguments) ∧ ∃ argument ∈ arguments, argument.id = id := by
  rw [exists_argument_iff analyzed, Node.exists_mention_iff]
  constructor
  · rintro ⟨rule, node, hasRule, inRule, mention, own, numbered⟩
    cases mention with
    | argument argumentTag =>
        obtain ⟨tag, name, arguments, rfl, argument, member, rfl⟩ :=
          Node.argument_mem_ownMentions_iff.mp own
        exact ⟨rule, tag, name, arguments, hasRule, inRule, argument, member,
          Option.some.inj numbered⟩
    | _ => cases numbered
  · rintro ⟨rule, tag, name, arguments, hasRule, inRule, argument, member, rfl⟩
    exact ⟨rule, _, hasRule, inRule, .argument argument.tag,
      Node.argument_mem_ownMentions_iff.mpr ⟨tag, name, arguments, rfl, argument, member, rfl⟩, rfl⟩

/-- What is met in expression position in a rule is mentioned by its definition
and can be read. -/
theorem exists_occurrence_of_inRule
    (analyzed : analyze source tree = .ok analysis)
    {rule node : Node}
    (hasRule : tree.HasRule rule)
    (inRule : rule.InRule node)
    {mention : Mention}
    (own : mention ∈ node.ownMentions) :
    ∃ definition ∈ tree.fileDefinitions, rule.definitions = [definition] ∧
      mention ∈ definition.mentions ∧ ∃ occurrence, mention.read source = .ok occurrence := by
  obtain ⟨definition, isDefinition, single, mentioned⟩ := Node.exists_definition_of_hasRule hasRule
  have isMention := mentioned node inRule mention own
  have readable := (isReadable_of_mem_fileDefinitions analyzed isDefinition).mentions
  exact ⟨definition, isDefinition, single, isMention, readable mention isMention⟩

theorem exists_resolution_of_identifier
    (distinct : tree.DistinctIds)
    (analyzed : analyze source tree = .ok analysis)
    {rule : Node}
    {tag : Tag}
    (hasRule : tree.HasRule rule)
    (inRule : rule.InRule (.identifier tag)) :
    ∃ text resolution, tag.read source = .ok text ∧
      analysis.resolution? tag.id = some resolution ∧
        resolution.OfIdentifier analysis.ruleNames text := by
  obtain ⟨definition, isDefinition, _, isMention, occurrence, read⟩ :=
    exists_occurrence_of_inRule analyzed hasRule inRule List.mem_cons_self
  obtain ⟨text, isText, rfl⟩ := Mention.read_identifier_eq_ok.mp read
  refine ⟨text, resolveIdentifier analysis.ruleNames (.ofText text), ?_, ?_, ?_⟩
  · exact Tag.read_eq_ok.mpr isText
  · exact (resolutions_recordsMentions analyzed).lastEntry_eq_some Node.resolvedIds_sublist
      distinct isDefinition isMention read rfl
  · exact ofIdentifier_resolveIdentifier analysis.ruleNames text

theorem exists_resolution_of_callee
    (distinct : tree.DistinctIds)
    (analyzed : analyze source tree = .ok analysis)
    {rule : Node}
    {tag : Tag}
    {name : Node}
    {arguments : List Node}
    (hasRule : tree.HasRule rule)
    (inRule : rule.InRule (.call tag name arguments)) :
    ∃ text resolution, name.tag.read source = .ok text ∧
      analysis.resolution? tag.id = some resolution ∧ resolution.OfCallee text := by
  obtain ⟨definition, isDefinition, _, isMention, occurrence, read⟩ :=
    exists_occurrence_of_inRule analyzed hasRule inRule List.mem_cons_self
  obtain ⟨text, isText, rfl⟩ := Mention.read_callee_eq_ok.mp read
  refine ⟨text, resolveCallee (.ofText text), ?_, ?_, ?_⟩
  · exact Tag.read_eq_ok.mpr isText
  · exact (resolutions_recordsMentions analyzed).lastEntry_eq_some Node.resolvedIds_sublist
      distinct isDefinition isMention read rfl
  · exact ofCallee_resolveCallee text

theorem exists_kind_of_argument
    (distinct : tree.DistinctIds)
    (analyzed : analyze source tree = .ok analysis)
    {rule : Node}
    {tag : Tag}
    {name : Node}
    {arguments : List Node}
    {argument : Node}
    (hasRule : tree.HasRule rule)
    (inRule : rule.InRule (.call tag name arguments))
    (member : argument ∈ arguments) :
    ∃ text kind, argument.tag.readTrimmed source = .ok text ∧
      analysis.argument? argument.id = some kind ∧
        kind.OfArgument source analysis.ruleNames rule text := by
  have own := Node.argument_mem_ownMentions_iff.mpr
    ⟨tag, name, arguments, rfl, argument, member, rfl⟩
  obtain ⟨definition, isDefinition, single, isMention, occurrence, read⟩ :=
    exists_occurrence_of_inRule analyzed hasRule inRule own
  have readable := (isReadable_of_mem_fileDefinitions analyzed isDefinition).mentions
  obtain ⟨text, isText, rfl⟩ := Mention.read_argument_eq_ok.mp read
  refine ⟨Text.trim text, argumentKind analysis.ruleNames (definition.occurrenceScope source)
    (Text.trim text), ?_, ?_, ?_⟩
  · exact Tag.readTrimmed_eq_ok.mpr ⟨text, isText, rfl⟩
  · exact (arguments_recordsMentions analyzed).lastEntry_eq_some Node.argumentIds_sublist
      distinct isDefinition isMention read rfl
  · exact ofArgument_argumentKind (contains_occurrenceScope_iff hasRule single readable)

/-- The classification of names is exact for every successful analysis. -/
theorem names_classified
    (distinct : tree.DistinctIds)
    (analyzed : analyze source tree = .ok analysis) :
    NamesClassified source tree analysis where
  ruleNames _ := mem_ruleNames_iff_written analyzed
  resolved _ := exists_resolution_iff_position analyzed
  identifiers := exists_resolution_of_identifier distinct analyzed
  callees := exists_resolution_of_callee distinct analyzed
  passed _ := exists_argument_iff_position analyzed
  arguments := exists_kind_of_argument distinct analyzed

/-- Two grammars, the first of which passes a rule of the second as an
argument. -/
def forwardSource : String :=
  "G<c, i> A = x:B(x, C, 1) Super.D; H<c, i> C = x;"

/-- The tree of `forwardSource`. -/
def forwardTree : Node :=
  .file ⟨0, ⟨0, 48⟩, {}⟩ []
    [.grammar ⟨1, ⟨0, 33⟩, {}⟩
      (.declaration ⟨2, ⟨0, 7⟩, {}⟩
        (.genericName ⟨3, ⟨0, 7⟩, {}⟩ (.code ⟨4, ⟨0, 1⟩, {}⟩)
          [.code ⟨5, ⟨2, 3⟩, {}⟩, .code ⟨6, ⟨5, 6⟩, {}⟩]) none)
      [.rule ⟨7, ⟨8, 33⟩, {}⟩ false (.code ⟨8, ⟨8, 9⟩, {}⟩) none
        (.sequence ⟨9, ⟨12, 32⟩, {}⟩
          [.binding ⟨10, ⟨12, 24⟩, {}⟩
            (.call ⟨11, ⟨14, 24⟩, {}⟩ (.code ⟨12, ⟨14, 15⟩, {}⟩)
              [.identifier ⟨13, ⟨16, 17⟩, {}⟩, .identifier ⟨14, ⟨19, 20⟩, {}⟩,
                .code ⟨15, ⟨22, 23⟩, {}⟩])
            (.code ⟨16, ⟨12, 13⟩, {}⟩),
            .identifier ⟨17, ⟨25, 32⟩, {}⟩])],
      .grammar ⟨18, ⟨34, 48⟩, {}⟩
        (.declaration ⟨19, ⟨34, 41⟩, {}⟩
          (.genericName ⟨20, ⟨34, 41⟩, {}⟩ (.code ⟨21, ⟨34, 35⟩, {}⟩)
            [.code ⟨22, ⟨36, 37⟩, {}⟩, .code ⟨23, ⟨39, 40⟩, {}⟩]) none)
        [.rule ⟨24, ⟨42, 48⟩, {}⟩ false (.code ⟨25, ⟨42, 43⟩, {}⟩) none
          (.identifier ⟨26, ⟨46, 47⟩, {}⟩)]]

/-- The rule of the second grammar is known in the first, the bound name is
passed on and the ancestor's rule is asked for. -/
theorem names_classified_forwardTree :
    forwardTree.DistinctIds ∧
      ∃ analysis, analyze forwardSource forwardTree = .ok analysis ∧
        NamesClassified forwardSource forwardTree analysis ∧
        [11, 13, 14, 17, 26].map analysis.resolution? =
          [some (.rule "B" false), some (.slot "x"), some (.rule "C" false),
            some (.rule "D" true), some (.slot "x")] ∧
        [13, 14, 15].map analysis.argument? = [some .slot, some .rule, some .value] := by
  have distinct : forwardTree.DistinctIds := by decide
  have looked : (analyze forwardSource forwardTree).toOption.map (fun analysis =>
      ([11, 13, 14, 17, 26].map analysis.resolution?, [13, 14, 15].map analysis.argument?)) =
        some ([some (.rule "B" false), some (.slot "x"), some (.rule "C" false),
            some (.rule "D" true), some (.slot "x")],
          [some .slot, some .rule, some .value]) := by
    decide
  cases analyzed : analyze forwardSource forwardTree with
  | error failure =>
      rw [analyzed] at looked
      cases looked
  | ok analysis =>
      rw [analyzed] at looked
      obtain ⟨resolutions, arguments⟩ := Prod.mk.inj (Option.some.inj looked)
      exact ⟨distinct, analysis, rfl, names_classified distinct analyzed, resolutions, arguments⟩

end Analysis
end GrammarCompiler
