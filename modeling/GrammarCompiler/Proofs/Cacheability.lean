import GrammarCompiler.Proofs.PerCallValues

/-!
# Which rules are cacheable

A rule is cacheable if no call of it needs a variable of its own.  Calls need a
variable for every name that a definition of the rule binds, and for every
identifier without a dot that is no rule name of the file, however deep it stands
in the definition.  The decision is made from the scopes of the definitions; here
it is stated with the nodes themselves.
-/

namespace GrammarCompiler

open WrittenName (IsQualified)

/-! ## Occurrences that need a variable -/

/-- An occurrence needs a variable: it binds one, or it is an identifier without
a dot that is no rule name. -/
def Occurrence.NeedsVariable (ruleNames : NameSet) : Occurrence → Prop
  | .identifier _ (.bare name) => name ∉ ruleNames
  | .binding _ => True
  | _ => False

namespace Scope

/-- A definition has a slot if an occurrence in it needs a variable. -/
theorem exists_slot_iff
    {occurrences : List Occurrence}
    {ruleNames : NameSet} :
    (∃ name, name ∈ ((ofOccurrences occurrences).settle ruleNames).slots) ↔
      ∃ occurrence ∈ occurrences, occurrence.NeedsVariable ruleNames := by
  simp only [mem_slots_settle_iff, ofOccurrences_eq, NameSet.mem_ofList, List.mem_filterMap]
  constructor
  · rintro ⟨name, ⟨occurrence, occurs, isLocal⟩, ⟨binder, binds, isBound⟩ | unknown⟩
    · cases binder with
      | binding bound => exact ⟨_, binds, trivial⟩
      | _ => cases isBound
    · refine ⟨occurrence, occurs, ?_⟩
      cases occurrence with
      | identifier id written =>
          cases written with
          | bare other =>
              cases isLocal
              exact unknown
          | qualified other bypass => cases isLocal
      | binding bound => trivial
      | callee id written => cases isLocal
      | argument id text => cases isLocal
  · rintro ⟨occurrence, occurs, needed⟩
    cases occurrence with
    | identifier id written =>
        cases written with
        | bare name => exact ⟨name, ⟨_, occurs, rfl⟩, .inr needed⟩
        | qualified name bypass => exact needed.elim
    | binding name => exact ⟨name, ⟨_, occurs, rfl⟩, .inl ⟨_, occurs, rfl⟩⟩
    | callee id written => exact needed.elim
    | argument id text => exact needed.elim

/-- A definition that binds a name has a slot for it, so that the slots alone
decide. -/
theorem isCacheable_iff
    (occurrences : List Occurrence)
    (ruleNames : NameSet) :
    (!((ofOccurrences occurrences).settle ruleNames).hasBindings &&
        ((ofOccurrences occurrences).settle ruleNames).slots.isEmpty) = true ↔
      ∀ occurrence ∈ occurrences, ¬occurrence.NeedsVariable ruleNames := by
  have boundNeeded {name : String} (isBound : name ∈ (ofOccurrences occurrences).bound) :
      ∃ occurrence ∈ occurrences, occurrence.NeedsVariable ruleNames := by
    rw [ofOccurrences_eq, NameSet.mem_ofList, List.mem_filterMap] at isBound
    obtain ⟨occurrence, occurs, binds⟩ := isBound
    cases occurrence with
    | binding bound => exact ⟨_, occurs, trivial⟩
    | _ => cases binds
  rw [Bool.and_eq_true, List.isEmpty_iff, List.eq_nil_iff_forall_not_mem]
  constructor
  · rintro ⟨_, noSlots⟩ occurrence occurs needed
    obtain ⟨name, isSlot⟩ := exists_slot_iff.mpr ⟨occurrence, occurs, needed⟩
    exact noSlots name isSlot
  · intro noneNeeded
    have noOccurrence : ¬∃ occurrence ∈ occurrences, occurrence.NeedsVariable ruleNames := by
      rintro ⟨occurrence, occurs, needed⟩
      exact noneNeeded occurrence occurs needed
    refine ⟨?_, fun name isSlot => noOccurrence (exists_slot_iff.mp ⟨name, isSlot⟩)⟩
    rw [hasBindings, Bool.not_not, NameSet.isEmpty, List.isEmpty_iff,
      List.eq_nil_iff_forall_not_mem]
    exact fun name isBound => noOccurrence (boundNeeded isBound)

end Scope

/-! ## Nodes that need a variable -/

namespace Node

/-- A node for which each call of its rule needs a variable of its own: a binding,
or an identifier without a dot that is no rule name. -/
inductive NeedsVariable (source : String) (ruleNames : NameSet) : Node → Prop where
  | binding {tag : Tag} {operand captured : Node} :
      NeedsVariable source ruleNames (binding tag operand captured)
  | unknown {tag : Tag} {text : String} :
      tag.read source = .ok text → ¬IsQualified text → Text.trim text ∉ ruleNames →
        NeedsVariable source ruleNames (identifier tag)

/-- Of what is met at a node, an occurrence needs a variable if the node does. -/
theorem needsVariable_iff
    {source : String}
    {ruleNames : NameSet}
    {node : Node}
    (readable : ∀ mention ∈ node.ownMentions, mention.IsReadable source) :
    node.NeedsVariable source ruleNames ↔
      ∃ mention ∈ node.ownMentions, ∃ occurrence, mention.read source = .ok occurrence ∧
        occurrence.NeedsVariable ruleNames := by
  constructor
  · intro needed
    cases needed with
    | @binding tag operand captured =>
        obtain ⟨occurrence, read⟩ := readable (.binding captured.tag) List.mem_cons_self
        obtain ⟨text, _, rfl⟩ := Mention.read_binding_eq_ok.mp read
        exact ⟨_, List.mem_cons_self, _, read, trivial⟩
    | @unknown tag text isText bare notRule =>
        refine ⟨.identifier tag, List.mem_cons_self, _,
          Mention.read_identifier_eq_ok.mpr ⟨text, Tag.read_eq_ok.mp isText, rfl⟩, ?_⟩
        rw [WrittenName.ofText_of_not_isQualified bare]
        exact notRule
  · rintro ⟨mention, own, occurrence, read, needed⟩
    cases mention with
    | identifier tag =>
        cases identifier_mem_ownMentions_iff.mp own
        obtain ⟨text, isText, rfl⟩ := Mention.read_identifier_eq_ok.mp read
        by_cases qualified : IsQualified text
        · obtain ⟨_, _, written, _⟩ := WrittenName.ofText_of_isQualified qualified
          rw [written] at needed
          exact needed.elim
        · rw [WrittenName.ofText_of_not_isQualified qualified] at needed
          exact .unknown (Tag.read_eq_ok.mpr isText) qualified needed
    | binding tag =>
        obtain ⟨_, _, _, rfl, _⟩ := binding_mem_ownMentions_iff.mp own
        exact .binding
    | callee id name =>
        obtain ⟨_, _, rfl⟩ := Mention.read_callee_eq_ok.mp read
        exact needed.elim
    | argument tag =>
        obtain ⟨_, _, rfl⟩ := Mention.read_argument_eq_ok.mp read
        exact needed.elim
    | misplaced kind tag => cases read

/-- The definition of a rule allows caching if no node in expression position
needs a variable. -/
theorem isCacheable_alternative_iff
    {source : String}
    {ruleNames : NameSet}
    {rule : Node}
    (isRule : rule.kind = .rule)
    (readable : ∀ mention ∈ rule.definition.mentions, mention.IsReadable source) :
    (!(rule.alternative source ruleNames).scope.hasBindings &&
        (rule.alternative source ruleNames).scope.slots.isEmpty) = true ↔
      ∀ inner, rule.InRule inner → ¬inner.NeedsVariable source ruleNames := by
  have mentioned {mention : Mention} : mention ∈ rule.definition.mentions ↔
      ∃ inner, rule.InRule inner ∧ mention ∈ inner.ownMentions :=
    mem_mentions_of_rule_iff isRule (definitions_of_rule isRule)
  have ownReadable {inner : Node} (inRule : rule.InRule inner) :
      ∀ mention ∈ inner.ownMentions, mention.IsReadable source :=
    fun mention own => readable mention (mentioned.mpr ⟨inner, inRule, own⟩)
  have somewhere : (∃ occurrence ∈ rule.definition.occurrences source,
        occurrence.NeedsVariable ruleNames) ↔
      ∃ inner, rule.InRule inner ∧ inner.NeedsVariable source ruleNames := by
    rw [Definition.exists_occurrence_iff readable]
    constructor
    · rintro ⟨mention, isMention, needed⟩
      obtain ⟨inner, inRule, own⟩ := mentioned.mp isMention
      exact ⟨inner, inRule, (needsVariable_iff (ownReadable inRule)).mpr ⟨mention, own, needed⟩⟩
    · rintro ⟨inner, inRule, needed⟩
      obtain ⟨mention, own, needed⟩ := (needsVariable_iff (ownReadable inRule)).mp needed
      exact ⟨mention, mentioned.mpr ⟨inner, inRule, own⟩, needed⟩
  have negated := not_congr somewhere
  push Not at negated
  exact (Scope.isCacheable_iff (rule.definition.occurrences source) ruleNames).trans negated

/-- A rule in the body of a grammar defines a name. -/
structure Defines (source : String) (node : Node) (name : String) (rule : Node) : Prop where
  inBody : ∃ tag header body, node = grammar tag header body ∧
    ∃ item ∈ body, item.ReachesRule rule
  named : rule.nameTag.readTrimmed source = .ok name

theorem mem_declaredRules_iff
    {node rule : Node} :
    rule ∈ node.declaredRules ↔
      ∃ tag header body, node = grammar tag header body ∧ ∃ item ∈ body, item.ReachesRule rule := by
  constructor
  · intro isDeclared
    cases node with
    | grammar tag header body =>
        obtain ⟨item, inBody, inItem⟩ := List.mem_flatMap.mp isDeclared
        exact ⟨tag, header, body, rfl, item, inBody, mem_rulesIn_iff.mp inItem⟩
    | _ => cases isDeclared
  · rintro ⟨tag, header, body, rfl, item, inBody, reached⟩
    exact List.mem_flatMap.mpr ⟨item, inBody, mem_rulesIn_iff.mpr reached⟩

end Node

/-! ## Rules of an analysis -/

namespace Analyzer.GrammarOutcome

variable {source : String} {node : Node} {grammar : GrammarAnalysis}

theorem isReadable_definition
    (outcome : GrammarOutcome source node grammar)
    {rule : Node}
    (isDeclared : rule ∈ node.declaredRules) :
    rule.definition.IsReadable source := by
  apply outcome.readable
  rw [Node.grammarDefinitions_eq_map]
  exact List.mem_map_of_mem isDeclared

/-- The rules of a name in an analyzed grammar are those that define it. -/
theorem mem_rulesNamed_iff
    (outcome : GrammarOutcome source node grammar)
    {name : String}
    {rule : Node} :
    rule ∈ node.rulesNamed source name ↔ node.Defines source name rule := by
  rw [Node.rulesNamed, List.mem_filter, decide_eq_true_eq]
  constructor
  · rintro ⟨isDeclared, rfl⟩
    obtain ⟨read, isRead⟩ := (outcome.isReadable_definition isDeclared).name
    have named : rule.nameTag.readTrimmed source = .ok read := isRead
    refine ⟨Node.mem_declaredRules_iff.mp isDeclared, ?_⟩
    rw [named, Node.declaredName, ← Tag.eq_trimmedText_of_readTrimmed named]
  · rintro ⟨inBody, named⟩
    exact ⟨Node.mem_declaredRules_iff.mpr inBody, (Tag.eq_trimmedText_of_readTrimmed named).symm⟩

end Analyzer.GrammarOutcome

/-- Of a grammar it is decided which rules are cacheable: its table has a set for
each name that a rule of the grammar defines, which is cacheable if and only if no
node in expression position in a definition of the name needs a variable. -/
structure CacheabilityDecided
    (source : String)
    (ruleNames : NameSet)
    (node : Node)
    (grammar : GrammarAnalysis) : Prop where
  defined (name : String) :
    (∃ set ∈ grammar.rules.sets, set.name = name) ↔ ∃ rule, node.Defines source name rule
  isCacheable_iff {set : AlternativeSet} :
    set ∈ grammar.rules.sets →
      (set.isCacheable = true ↔
        ∀ rule, node.Defines source set.name rule →
          ∀ inner, rule.InRule inner → ¬inner.NeedsVariable source ruleNames)

namespace Analysis

theorem cacheabilityDecided_settle
    {source : String}
    {node : Node}
    {grammar : GrammarAnalysis}
    (outcome : Analyzer.GrammarOutcome source node grammar)
    (ruleNames : NameSet) :
    CacheabilityDecided source ruleNames node (grammar.settle ruleNames) where
  defined name := by
    rw [outcome.sets_settle]
    constructor
    · rintro ⟨_, isSet, rfl⟩
      obtain ⟨name, isDeclared, rfl⟩ := List.mem_map.mp isSet
      rw [← NameSet.mem_def, NameSet.mem_ofList] at isDeclared
      obtain ⟨rule, isRule, isNamed⟩ := List.mem_map.mp isDeclared
      have member : rule ∈ node.rulesNamed source name :=
        List.mem_filter.mpr ⟨isRule, decide_eq_true isNamed⟩
      exact ⟨rule, outcome.mem_rulesNamed_iff.mp member⟩
    · rintro ⟨rule, defines⟩
      obtain ⟨isRule, isNamed⟩ := List.mem_filter.mp (outcome.mem_rulesNamed_iff.mpr defines)
      refine ⟨_, List.mem_map_of_mem (a := name) ?_, rfl⟩
      rw [← NameSet.mem_def, NameSet.mem_ofList]
      exact List.mem_map.mpr ⟨rule, isRule, of_decide_eq_true isNamed⟩
  isCacheable_iff {set} isSet := by
    rw [outcome.sets_settle] at isSet
    obtain ⟨name, _, rfl⟩ := List.mem_map.mp isSet
    have decided : (node.alternativeSet source ruleNames name).isCacheable = true ↔
        ∀ rule ∈ node.rulesNamed source name,
          (!(rule.alternative source ruleNames).scope.hasBindings &&
            (rule.alternative source ruleNames).scope.slots.isEmpty) = true := by
      rw [Node.alternativeSet, AlternativeSet.settle, List.map_map, List.all_map, List.all_eq_true]
      rfl
    rw [decided]
    refine forall_congr' fun rule => ?_
    rw [outcome.mem_rulesNamed_iff]
    refine imp_congr_right fun defines => ?_
    have isDeclared := Node.mem_declaredRules_iff.mpr defines.inBody
    exact Node.isCacheable_alternative_iff (Node.kind_of_mem_declaredRules isDeclared)
      (outcome.isReadable_definition isDeclared).mentions

/-- Which rules are cacheable is decided exactly, for all grammars of an analyzed
file and with the rule names of the whole file. -/
theorem cacheability_decided
    {source : String}
    {tree : Node}
    {analysis : Analysis}
    (analyzed : analyze source tree = .ok analysis) :
    ∃ tag preamble grammars, tree = .file tag preamble grammars ∧
      List.Forall₂ (CacheabilityDecided source analysis.ruleNames) grammars analysis.grammars := by
  obtain ⟨tag, preamble, _, walked, rfl, _, outcomes, rfl⟩ := analyze_eq_ok analyzed
  refine ⟨tag, preamble, _, rfl, ?_⟩
  simp only [Analyzer.finish, List.forall₂_map_left_iff, List.forall₂_map_right_iff,
    List.forall₂_same]
  intro step isStep
  exact cacheabilityDecided_settle (outcomes step isStep) _

/-- Two grammars: the first refers to a rule of the second, to a name that is no
rule, and binds a name in an argument. -/
def deepBindingSource : String :=
  "G<c, i> A = C; B = C; A = y; D = F(b:C); H<c, i> C = A;"

/-- The tree of `deepBindingSource`. -/
def deepBindingTree : Node :=
  .file ⟨0, ⟨0, 55⟩, {}⟩ []
    [.grammar ⟨1, ⟨0, 40⟩, {}⟩
      (.declaration ⟨2, ⟨0, 7⟩, {}⟩
        (.genericName ⟨3, ⟨0, 7⟩, {}⟩ (.code ⟨4, ⟨0, 1⟩, {}⟩)
          [.code ⟨5, ⟨2, 3⟩, {}⟩, .code ⟨6, ⟨5, 6⟩, {}⟩]) none)
      [.rule ⟨7, ⟨8, 14⟩, {}⟩ false (.code ⟨8, ⟨8, 9⟩, {}⟩) none
          (.identifier ⟨9, ⟨12, 13⟩, {}⟩),
        .rule ⟨10, ⟨15, 21⟩, {}⟩ false (.code ⟨11, ⟨15, 16⟩, {}⟩) none
          (.identifier ⟨12, ⟨19, 20⟩, {}⟩),
        .rule ⟨13, ⟨22, 28⟩, {}⟩ false (.code ⟨14, ⟨22, 23⟩, {}⟩) none
          (.identifier ⟨15, ⟨26, 27⟩, {}⟩),
        .rule ⟨16, ⟨29, 40⟩, {}⟩ false (.code ⟨17, ⟨29, 30⟩, {}⟩) none
          (.call ⟨18, ⟨33, 39⟩, {}⟩ (.code ⟨19, ⟨33, 34⟩, {}⟩)
            [.binding ⟨20, ⟨35, 38⟩, {}⟩ (.identifier ⟨21, ⟨37, 38⟩, {}⟩)
              (.code ⟨22, ⟨35, 36⟩, {}⟩)])],
      .grammar ⟨23, ⟨41, 55⟩, {}⟩
        (.declaration ⟨24, ⟨41, 48⟩, {}⟩
          (.genericName ⟨25, ⟨41, 48⟩, {}⟩ (.code ⟨26, ⟨41, 42⟩, {}⟩)
            [.code ⟨27, ⟨43, 44⟩, {}⟩, .code ⟨28, ⟨46, 47⟩, {}⟩]) none)
        [.rule ⟨29, ⟨49, 55⟩, {}⟩ false (.code ⟨30, ⟨49, 50⟩, {}⟩) none
          (.identifier ⟨31, ⟨53, 54⟩, {}⟩)]]

/-- One definition that needs a variable is enough, and so is a binding in an
argument; a rule of the other grammar needs none. -/
theorem cacheability_decided_deepBindingTree :
    ∃ analysis, analyze deepBindingSource deepBindingTree = .ok analysis ∧
      (∃ tag preamble grammars, deepBindingTree = .file tag preamble grammars ∧
        List.Forall₂ (CacheabilityDecided deepBindingSource analysis.ruleNames) grammars
          analysis.grammars) ∧
      (analysis.grammars.map fun grammar =>
        grammar.rules.sets.map fun set => (set.name, set.isCacheable)) =
          [[("A", false), ("B", true), ("D", false)], [("C", true)]] := by
  have looked : (analyze deepBindingSource deepBindingTree).toOption.map (fun analysis =>
      analysis.grammars.map fun grammar =>
        grammar.rules.sets.map fun set => (set.name, set.isCacheable)) =
          some [[("A", false), ("B", true), ("D", false)], [("C", true)]] := by
    decide +kernel
  obtain ⟨analysis, analyzed, sets⟩ := exists_eq_ok_of_toOption_map looked
  exact ⟨analysis, analyzed, cacheability_decided analyzed, sets⟩

end Analysis
end GrammarCompiler
