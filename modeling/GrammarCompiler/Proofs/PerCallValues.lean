import GrammarCompiler.Proofs.NameClassification
import GrammarCompiler.Proofs.SynthesisOutcome

/-!
# What combinators take from a call

A combinator may refer to values that belong to one call of its rule: variables,
which it fills, reads or passes on, and the arguments of the call.  Each of its
variables comes from a mention in the definition of the rule, and the scope of
the definition has a slot for it.
-/

namespace GrammarCompiler

/-- A value that belongs to one call of a rule. -/
inductive PerCallValue where
  /-- A variable that keeps a match. -/
  | capture (name : String)
  /-- A variable whose value is matched. -/
  | reference (name : String)
  /-- A variable that is passed on to another call. -/
  | passed (name : String)
  /-- The arguments of the call. -/
  | arguments
  deriving DecidableEq

/-- The variable that a value is kept in. -/
def PerCallValue.slot? : PerCallValue → Option String
  | .capture name => some name
  | .reference name => some name
  | .passed name => some name
  | .arguments => none

/-- The value that an argument passes on. -/
def CallArgument.perCallValue? : CallArgument → Option PerCallValue
  | .slot text => some (.passed text)
  | _ => none

namespace Combinator

mutual

/-- The values of the call to which a combinator refers. -/
def perCallValues : Combinator → List PerCallValue
  | .literal _ => []
  | .any => []
  | .call _ arguments => arguments.filterMap CallArgument.perCallValue?
  | .reference name => [.reference name]
  | .unary _ operand => operand.perCallValues
  | .capture operand name => operand.perCallValues ++ [.capture name]
  | .condition operand _ => operand.perCallValues
  | .action operand _ => operand.perCallValues
  | .sequence items => perCallValuesAll items
  | .choice alternatives => perCallValuesAll alternatives
  | .fail _ => []
  | .parameters params body => params.perCallValues ++ .arguments :: body.perCallValues

/-- The values of the call to which some combinators refer. -/
def perCallValuesAll : List Combinator → List PerCallValue
  | [] => []
  | combinator :: combinators => combinator.perCallValues ++ perCallValuesAll combinators

end

@[simp] theorem perCallValuesAll_eq_flatMap (combinators : List Combinator) :
    perCallValuesAll combinators = combinators.flatMap perCallValues := by
  induction combinators with
  | nil => rfl
  | cons combinator combinators inductionHypothesis =>
      simp [perCallValuesAll, inductionHypothesis]

end Combinator

/-! ## Values come from mentions -/

/-- The value of the call that a mention brings into a combinator. -/
def Mention.perCallValue? (source : String) (analysis : Analysis) : Mention → Option PerCallValue
  | .identifier tag =>
      match analysis.resolution? tag.id with
      | some (.slot name) => some (.reference name)
      | _ => none
  | .argument tag =>
      match analysis.argument? tag.id with
      | some .slot => some (.passed (tag.trimmedText source))
      | _ => none
  | .binding captured => some (.capture (captured.trimmedText source))
  | _ => none

theorem Mention.perCallValue?_identifier_eq_some
    {source : String}
    {analysis : Analysis}
    {tag : Tag}
    {value : PerCallValue} :
    (identifier tag).perCallValue? source analysis = some value ↔
      ∃ name, analysis.resolution? tag.id = some (.slot name) ∧ .reference name = value := by
  rw [perCallValue?]
  split
  · next name found => simp [found]
  · next notSlot =>
      constructor
      · intro absurdity
        cases absurdity
      · rintro ⟨name, isSlot, _⟩
        exact absurd isSlot (notSlot name)

theorem Mention.perCallValue?_argument_eq_some
    {source : String}
    {analysis : Analysis}
    {tag : Tag}
    {value : PerCallValue} :
    (argument tag).perCallValue? source analysis = some value ↔
      analysis.argument? tag.id = some .slot ∧ .passed (tag.trimmedText source) = value := by
  rw [perCallValue?]
  split
  · next found => simp [found]
  · next notSlot =>
      constructor
      · intro absurdity
        cases absurdity
      · rintro ⟨isSlot, _⟩
        exact absurd isSlot notSlot

namespace Synthesis

variable {source : String} {analysis : Analysis}

theorem resolve_eq_ok
    {tag : Tag}
    {resolution : Resolution}
    (succeeds : resolve source analysis tag = .ok resolution) :
    analysis.resolution? tag.id = some resolution := by
  unfold resolve at succeeds
  split at succeeds
  · next found =>
      cases succeeds
      exact found
  · obtain ⟨_, _, failed⟩ := bind_eq_ok.mp succeeds
    cases failed

theorem perCallValue?_of_callArgument
    {tag : Tag}
    {argument : CallArgument}
    (succeeds : callArgument source analysis tag = .ok argument) :
    argument.perCallValue? = (Mention.argument tag).perCallValue? source analysis := by
  obtain ⟨text, isText, succeeds⟩ := bind_eq_ok.mp succeeds
  rw [Mention.perCallValue?, ← Tag.eq_trimmedText_of_readTrimmed isText]
  split at succeeds
  · next found =>
      cases succeeds
      rw [found]
      rfl
  · next found =>
      cases succeeds
      rw [found]
      rfl
  · next found =>
      cases succeeds
      rw [found]
      rfl
  · cases succeeds

/-- A combinator refers to no value of the call but those that its expression
mentions. -/
theorem exists_mention_of_perCallValue
    {node : Node}
    {result : Combinator}
    (succeeds : combinator source analysis node = .ok result)
    {value : PerCallValue}
    (member : value ∈ result.perCallValues) :
    ∃ mention ∈ node.mentions, mention.perCallValue? source analysis = some value := by
  induction node generalizing result with
  | literal tag =>
      rw [combinator] at succeeds
      obtain ⟨_, _, same⟩ := bind_eq_ok.mp succeeds
      cases same
      cases member
  | any tag =>
      rw [combinator] at succeeds
      cases succeeds
      cases member
  | identifier tag =>
      rw [combinator] at succeeds
      obtain ⟨resolution, resolved, same⟩ := bind_eq_ok.mp succeeds
      cases same
      cases resolution with
      | rule name bypass => cases member
      | slot name =>
          cases List.mem_singleton.mp member
          refine ⟨.identifier tag, List.mem_cons_self, ?_⟩
          exact Mention.perCallValue?_identifier_eq_some.mpr ⟨name, resolve_eq_ok resolved, rfl⟩
  | call tag name arguments =>
      rw [combinator] at succeeds
      obtain ⟨_, _, succeeds⟩ := bind_eq_ok.mp succeeds
      obtain ⟨results, isResults, same⟩ := bind_eq_ok.mp succeeds
      cases same
      obtain ⟨passed, isPassed, brings⟩ := List.mem_filterMap.mp member
      obtain ⟨argument, isArgument, becomes⟩ :=
        exists_partner (mapM_eq_ok_iff_forall₂.mp isResults).flip isPassed
      refine ⟨.argument argument.tag, ?_, ?_⟩
      · rw [Node.mentions, Node.argumentMentions_eq_flatMap]
        refine List.mem_cons_of_mem _ (List.mem_flatMap.mpr ⟨argument, isArgument, ?_⟩)
        exact List.mem_cons_self
      · rw [← perCallValue?_of_callArgument becomes, brings]
  | unary tag operator operand ofOperand =>
      rw [combinator] at succeeds
      obtain ⟨_, operandSucceeds, same⟩ := bind_eq_ok.mp succeeds
      cases same
      exact ofOperand operandSucceeds member
  | binding tag operand captured ofOperand =>
      rw [combinator] at succeeds
      obtain ⟨_, operandSucceeds, succeeds⟩ := bind_eq_ok.mp succeeds
      obtain ⟨name, isName, same⟩ := bind_eq_ok.mp succeeds
      cases same
      rcases List.mem_append.mp member with inOperand | isCaptured
      · obtain ⟨mention, isMention, brings⟩ := ofOperand operandSucceeds inOperand
        exact ⟨mention, List.mem_cons_of_mem _ isMention, brings⟩
      · cases List.mem_singleton.mp isCaptured
        refine ⟨.binding captured.tag, List.mem_cons_self, ?_⟩
        rw [Mention.perCallValue?, ← Tag.eq_trimmedText_of_readTrimmed isName]
  | condition tag operand code ofOperand
  | action tag operand code ofOperand =>
      rw [combinator] at succeeds
      obtain ⟨_, operandSucceeds, succeeds⟩ := bind_eq_ok.mp succeeds
      obtain ⟨_, _, same⟩ := bind_eq_ok.mp succeeds
      cases same
      exact ofOperand operandSucceeds member
  | sequence tag members ofMembers
  | choice tag members ofMembers =>
      have fromMember {inner : Node} (isMember : inner ∈ members) {made : Combinator}
          (innerSucceeds : combinator source analysis inner = .ok made)
          (inMade : value ∈ made.perCallValues) :
          ∃ mention ∈ Node.mentionsAll members,
            mention.perCallValue? source analysis = some value := by
        obtain ⟨mention, isMention, brings⟩ := ofMembers inner isMember innerSucceeds inMade
        refine ⟨mention, ?_, brings⟩
        rw [Node.mentionsAll_eq_flatMap]
        exact List.mem_flatMap.mpr ⟨inner, isMember, isMention⟩
      rw [Node.mentions]
      by_cases single : ∃ only, members = [only]
      · obtain ⟨only, rfl⟩ := single
        rw [combinator] at succeeds
        exact fromMember List.mem_cons_self succeeds member
      · rw [combinator, combinators_eq_mapM] at succeeds
        · obtain ⟨results, isResults, same⟩ := bind_eq_ok.mp succeeds
          cases same
          rw [Combinator.perCallValues, Combinator.perCallValuesAll_eq_flatMap] at member
          obtain ⟨made, isMade, inMade⟩ := List.mem_flatMap.mp member
          obtain ⟨inner, isMember, becomes⟩ :=
            exists_partner (mapM_eq_ok_iff_forall₂.mp isResults).flip isMade
          exact fromMember isMember becomes inMade
        · exact fun only isSingle => single ⟨only, isSingle⟩
  | fail tag message =>
      rw [combinator] at succeeds
      obtain ⟨_, _, same⟩ := bind_eq_ok.mp succeeds
      cases same
      cases member
  | _ =>
      rw [combinator] at succeeds
      cases succeeds

/-- The same for the parameters or the body of a rule and what its definition
mentions. -/
theorem exists_mention_of_ruleExpression
    {rule expression : Node}
    (isExpression : expression ∈ rule.ruleExpressions)
    {result : Combinator}
    (succeeds : combinator source analysis expression = .ok result)
    {value : PerCallValue}
    (member : value ∈ result.perCallValues) :
    ∃ mention ∈ rule.definition.mentions, mention.perCallValue? source analysis = some value := by
  obtain ⟨mention, isMention, brings⟩ := exists_mention_of_perCallValue succeeds member
  exact ⟨mention, List.mem_flatMap.mpr ⟨expression, isExpression, isMention⟩, brings⟩

end Synthesis

/-! ## Values have slots -/

namespace Analysis

theorem resolveIdentifier_eq_slot_iff
    {ruleNames : NameSet}
    {written : WrittenName}
    {name : String} :
    resolveIdentifier ruleNames written = .slot name ↔
      written = .bare name ∧ name ∉ ruleNames := by
  cases written with
  | qualified other bypass => simp [resolveIdentifier]
  | bare other =>
      rw [resolveIdentifier, WrittenName.bare.injEq]
      split
      · next known =>
          rw [NameSet.contains_iff] at known
          constructor
          · intro absurdity
            cases absurdity
          · rintro ⟨rfl, unknown⟩
            exact absurd known unknown
      · next unknown =>
          rw [NameSet.contains_iff] at unknown
          constructor
          · rintro ⟨⟩
            exact ⟨rfl, unknown⟩
          · rintro ⟨rfl, _⟩
            rfl

theorem argumentKind_eq_slot_iff
    {ruleNames : NameSet}
    {scope : Scope}
    {text : String} :
    argumentKind ruleNames scope text = .slot ↔ text ∈ scope.names ∧ text ∉ ruleNames := by
  unfold argumentKind
  split
  · next known =>
      rw [NameSet.contains_iff] at known
      constructor
      · intro absurdity
        cases absurdity
      · rintro ⟨_, unknown⟩
        exact absurd known unknown
  · next unknown =>
      rw [NameSet.contains_iff] at unknown
      split
      · next inScope =>
          rw [Scope.contains, NameSet.contains_iff] at inScope
          exact ⟨fun _ => ⟨inScope, unknown⟩, fun _ => rfl⟩
      · next notInScope =>
          rw [Scope.contains, NameSet.contains_iff] at notInScope
          constructor
          · intro absurdity
            cases absurdity
          · rintro ⟨inScope, _⟩
            exact absurd inScope notInScope

end Analysis

theorem Scope.needsSlot_iff
    {scope : Scope}
    {ruleNames : NameSet}
    {name : String} :
    scope.needsSlot ruleNames name = true ↔ name ∈ scope.bound ∨ name ∉ ruleNames := by
  rw [needsSlot, Bool.or_eq_true, NameSet.contains_iff, Bool.not_eq_true', ← Bool.not_eq_true,
    NameSet.contains_iff]

theorem Scope.mem_slots_settle_iff
    {scope : Scope}
    {ruleNames : NameSet}
    {name : String} :
    name ∈ (scope.settle ruleNames).slots ↔
      name ∈ scope.names ∧ (name ∈ scope.bound ∨ name ∉ ruleNames) := by
  rw [settle, List.mem_filter, ← NameSet.mem_def, needsSlot_iff]

namespace Definition

variable {source : String} {definition : Definition} {occurrence : Occurrence} {name : String}

/-- The scope of a definition holds the names that occur in it. -/
theorem mem_names_of_localName?
    (occurs : occurrence ∈ definition.occurrences source)
    (isLocal : occurrence.localName? = some name) :
    name ∈ (definition.occurrenceScope source).names := by
  rw [occurrenceScope, Scope.ofOccurrences_eq, NameSet.mem_ofList]
  exact List.mem_filterMap.mpr ⟨occurrence, occurs, isLocal⟩

theorem mem_bound_of_bound?
    (occurs : occurrence ∈ definition.occurrences source)
    (isBound : occurrence.bound? = some name) :
    name ∈ (definition.occurrenceScope source).bound := by
  rw [occurrenceScope, Scope.ofOccurrences_eq, NameSet.mem_ofList]
  exact List.mem_filterMap.mpr ⟨occurrence, occurs, isBound⟩

end Definition

theorem Node.hasRule_of_mem_declaredRules
    {tag : Tag}
    {preamble grammars : List Node}
    {node rule : Node}
    (isGrammar : node ∈ grammars)
    (isDeclared : rule ∈ node.declaredRules) :
    (file tag preamble grammars).HasRule rule := by
  cases node with
  | grammar grammarTag header body =>
      obtain ⟨item, inBody, inItem⟩ := List.mem_flatMap.mp isDeclared
      exact ⟨tag, preamble, grammars, rfl, grammarTag, header, body, isGrammar, item, inBody,
        mem_rulesIn_iff.mp inItem⟩
  | _ => cases isDeclared

theorem Node.definition_mem_fileDefinitions
    {tree rule : Node}
    (hasRule : tree.HasRule rule) :
    rule.definition ∈ tree.fileDefinitions :=
  mem_fileDefinitions_iff.mpr ⟨rule, hasRule, definitions_of_rule hasRule.kind_eq⟩

/-- What a mention brings into a combinator is kept in a slot of the
definition. -/
theorem Node.exists_slot_of_perCallValue
    {source : String}
    {tree : Node}
    {analysis : Analysis}
    (distinct : tree.DistinctIds)
    (analyzed : analyze source tree = .ok analysis)
    {rule : Node}
    (hasRule : tree.HasRule rule)
    {mention : Mention}
    (isMention : mention ∈ rule.definition.mentions)
    {value : PerCallValue}
    (brings : mention.perCallValue? source analysis = some value) :
    ∃ name ∈ (rule.alternative source analysis.ruleNames).scope.slots,
      value.slot? = some name := by
  have isDefinition := definition_mem_fileDefinitions hasRule
  have readable := (Analysis.isReadable_of_mem_fileDefinitions analyzed isDefinition).mentions
  obtain ⟨occurrence, read⟩ := readable mention isMention
  have occurs : occurrence ∈ rule.definition.occurrences source :=
    (Mention.mem_readable_iff readable).mpr ⟨mention, isMention, read⟩
  cases mention with
  | identifier tag =>
      obtain ⟨name, isSlot, rfl⟩ := Mention.perCallValue?_identifier_eq_some.mp brings
      obtain ⟨text, _, rfl⟩ := Mention.read_identifier_eq_ok.mp read
      have resolved : analysis.resolution? tag.id =
          some (Analysis.resolveIdentifier analysis.ruleNames (.ofText text)) :=
        (Analysis.resolutions_recordsMentions analyzed).lastEntry_eq_some resolvedIds_sublist
          distinct isDefinition isMention read rfl
      rw [resolved, Option.some.injEq, Analysis.resolveIdentifier_eq_slot_iff] at isSlot
      obtain ⟨isBare, unknown⟩ := isSlot
      rw [isBare] at occurs
      have inNames := Definition.mem_names_of_localName? occurs rfl
      exact ⟨name, Scope.mem_slots_settle_iff.mpr ⟨inNames, .inr unknown⟩, rfl⟩
  | argument tag =>
      obtain ⟨isSlot, rfl⟩ := Mention.perCallValue?_argument_eq_some.mp brings
      obtain ⟨text, isText, rfl⟩ := Mention.read_argument_eq_ok.mp read
      have passed : analysis.argument? tag.id = some (Analysis.argumentKind analysis.ruleNames
          (rule.definition.occurrenceScope source) (Text.trim text)) :=
        (Analysis.arguments_recordsMentions analyzed).lastEntry_eq_some argumentIds_sublist
          distinct isDefinition isMention read rfl
      rw [passed, Option.some.injEq, Analysis.argumentKind_eq_slot_iff] at isSlot
      obtain ⟨inNames, unknown⟩ := isSlot
      refine ⟨Text.trim text, Scope.mem_slots_settle_iff.mpr ⟨inNames, .inr unknown⟩, ?_⟩
      rw [PerCallValue.slot?, Tag.trimmedText, isText, Option.getD_some]
  | binding captured =>
      obtain ⟨text, isText, rfl⟩ := Mention.read_binding_eq_ok.mp read
      have inNames := Definition.mem_names_of_localName? occurs rfl
      have isBound := Definition.mem_bound_of_bound? occurs rfl
      cases brings
      refine ⟨Text.trim text, Scope.mem_slots_settle_iff.mpr ⟨inNames, .inl isBound⟩, ?_⟩
      rw [PerCallValue.slot?, Tag.trimmedText, isText, Option.getD_some]
  | callee id name => cases brings
  | misplaced kind tag => cases brings

end GrammarCompiler
