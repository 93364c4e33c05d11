import GrammarCompiler.Proofs.PerCallValues
import Mathlib.Data.List.Perm.Basic

/-!
# The order of declarations

The grammars of a file may stand in any order, and so may the items of a grammar:
rule names are collected from all of them before anything is classified.  Here the
same declarations in another order are shown to be analyzed alike.  What is said
of a file in one order is transported to the other, and back by symmetry.
-/

namespace GrammarCompiler

/-- Names are looked up alike in sets with the same names. -/
theorem NameSet.contains_eq
    {left right : NameSet}
    (same : ∀ name, name ∈ left ↔ name ∈ right) :
    left.contains = right.contains := by
  funext name
  rw [Bool.eq_iff_iff, contains_iff, contains_iff, same]

/-- What is collected from lists in step is the same up to order if it is so for
each pair. -/
theorem perm_flatMap_of_forall₂
    {related : α → α → Prop}
    {left right : List α}
    (inStep : List.Forall₂ related left right)
    {collect : α → List β}
    (each : ∀ first second, related first second → (collect first).Perm (collect second)) :
    (left.flatMap collect).Perm (right.flatMap collect) := by
  induction inStep with
  | nil => exact .nil
  | cons isRelated _ inductionHypothesis =>
      rw [List.flatMap_cons, List.flatMap_cons]
      exact (each _ _ isRelated).append inductionHypothesis

namespace Node

/-! ## Grammars -/

/-- A grammar with the items of its body in another order; any other node as it
is. -/
inductive BodyReordered : Node → Node → Prop where
  | grammar
      {tag : Tag}
      {header : Node}
      {body body' : List Node}
      (items : body.Perm body') :
      BodyReordered (.grammar tag header body) (.grammar tag header body')
  | same (node : Node) : BodyReordered node node

namespace BodyReordered

variable {node node' : Node}

theorem symm (reordered : BodyReordered node node') : BodyReordered node' node := by
  cases reordered with
  | grammar items => exact .grammar items.symm
  | same => exact .same _

theorem id_eq (reordered : BodyReordered node node') : node'.id = node.id := by
  cases reordered <;> rfl

theorem ids_perm (reordered : BodyReordered node node') : node.ids.Perm node'.ids := by
  cases reordered with
  | grammar items =>
      rw [ids_eq_cons, ids_eq_cons]
      exact ((items.cons _).flatMap_right ids).cons _
  | same => exact .refl _

theorem declaredRules_perm
    (reordered : BodyReordered node node') :
    node.declaredRules.Perm node'.declaredRules := by
  cases reordered with
  | grammar items => exact items.flatMap_right rulesIn
  | same => exact .refl _

theorem grammarDefinitions_perm
    (reordered : BodyReordered node node') :
    node.grammarDefinitions.Perm node'.grammarDefinitions := by
  rw [grammarDefinitions_eq_map, grammarDefinitions_eq_map]
  exact reordered.declaredRules_perm.map definition

/-- If a grammar can be read, it can be read in any order. -/
theorem exists_outcome
    (reordered : BodyReordered node node')
    {source : String}
    {grammar : GrammarAnalysis}
    (outcome : Analyzer.GrammarOutcome source node grammar) :
    ∃ grammar', Analyzer.GrammarOutcome source node' grammar' := by
  have definitions := reordered.grammarDefinitions_perm
  cases reordered with
  | grammar items =>
      obtain ⟨_, _, _, isGrammar, declared⟩ := outcome.declared
      cases isGrammar
      refine ⟨⟨_, grammar.declaration, .ofDefinitions _⟩, ⟨_, _, _, rfl, declared⟩, rfl, ?_, rfl⟩
      intro definition member
      exact outcome.readable definition (definitions.mem_iff.mpr member)
  | same => exact ⟨grammar, outcome⟩

end BodyReordered

/-! ## Files -/

/-- A file with its grammars in another order, and the items of each of them,
too. -/
inductive Reordered : Node → Node → Prop where
  | file
      {tag : Tag}
      {preamble grammars moved grammars' : List Node}
      (order : grammars.Perm moved)
      (bodies : List.Forall₂ BodyReordered moved grammars') :
      Reordered (.file tag preamble grammars) (.file tag preamble grammars')

namespace Reordered

variable {tree tree' : Node}

theorem symm (reordered : Reordered tree tree') : Reordered tree' tree := by
  cases reordered with
  | @file tag preamble grammars moved grammars' order bodies =>
      have back : List.Forall₂ BodyReordered grammars' moved :=
        bodies.flip.imp fun _ _ => BodyReordered.symm
      have composed : Relation.Comp (List.Forall₂ BodyReordered) List.Perm grammars' grammars :=
        ⟨moved, back, order.symm⟩
      rw [List.forall₂_comp_perm_eq_perm_comp_forall₂] at composed
      obtain ⟨between, order', bodies'⟩ := composed
      exact .file order' bodies'

theorem distinctIds
    (reordered : Reordered tree tree')
    (distinct : tree.DistinctIds) :
    tree'.DistinctIds := by
  cases reordered with
  | file order bodies =>
      rw [DistinctIds, ids_eq_cons, children, List.flatMap_append] at distinct ⊢
      have moved := (order.flatMap_right ids).trans
        (perm_flatMap_of_forall₂ bodies fun _ _ => BodyReordered.ids_perm)
      exact ((moved.append_left _).cons _).nodup_iff.mp distinct

theorem fileDefinitions_perm
    (reordered : Reordered tree tree') :
    tree.fileDefinitions.Perm tree'.fileDefinitions := by
  cases reordered with
  | file order bodies =>
      exact (order.flatMap_right grammarDefinitions).trans
        (perm_flatMap_of_forall₂ bodies fun _ _ => BodyReordered.grammarDefinitions_perm)

end Reordered

/-- Every grammar is found again in a file in another order. -/
theorem exists_bodyReordered
    {grammars moved grammars' : List Node}
    (order : grammars.Perm moved)
    (bodies : List.Forall₂ BodyReordered moved grammars')
    {node : Node}
    (isGrammar : node ∈ grammars) :
    ∃ node' ∈ grammars', BodyReordered node node' :=
  exists_partner bodies (order.mem_iff.mp isGrammar)

/-- If a file is analyzed, it is analyzed in any order. -/
theorem Reordered.exists_analyze
    {tree tree' : Node}
    (reordered : Reordered tree tree')
    {source : String}
    (analyzes : ∃ analysis, analyze source tree = .ok analysis) :
    ∃ analysis', analyze source tree' = .ok analysis' := by
  have back := reordered.symm
  cases back with
  | file order bodies =>
      obtain ⟨imports, each⟩ := exists_analyze_iff.mp analyzes
      refine exists_analyze_iff.mpr ⟨imports, fun node' isGrammar' => ?_⟩
      obtain ⟨node, isGrammar, ofNode⟩ := exists_bodyReordered order bodies isGrammar'
      obtain ⟨grammar, outcome⟩ := each node isGrammar
      exact ofNode.symm.exists_outcome outcome

end Node

/-! ## Rules of an analysis -/

/-- Whether a rule overrides one of an ancestor, whether only some of its
definitions do, and whether it is cacheable. -/
def AlternativeSet.flags (set : AlternativeSet) : Bool × Bool × Bool :=
  (set.isOverride, set.isMixed, set.isCacheable)

namespace Analysis

/-- The definitions of a name in a grammar. -/
def rule? (analysis : Analysis) (grammarId : Nat) (name : String) : Option AlternativeSet :=
  (analysis.grammar? grammarId).bind fun grammar => grammar.rules.get? name

/-- The scope of a definition. -/
def HasScope (analysis : Analysis) (ruleId : Nat) (scope : Scope) : Prop :=
  ∃ grammar ∈ analysis.grammars, ∃ set ∈ grammar.rules.sets,
    ∃ alternative ∈ set.alternatives, alternative.ruleId = ruleId ∧ alternative.scope = scope

end Analysis

/-- A name has the definitions that the rules of the grammar give it, if there
are any. -/
theorem Analyzer.GrammarOutcome.get?_settle_eq_some
    {source : String}
    {node : Node}
    {grammar : GrammarAnalysis}
    (outcome : Analyzer.GrammarOutcome source node grammar)
    {ruleNames : NameSet}
    {name : String}
    {set : AlternativeSet} :
    (grammar.settle ruleNames).rules.get? name = some set ↔
      name ∈ node.declaredNames source ∧ node.alternativeSet source ruleNames name = set := by
  have isMember : name ∈ (NameSet.ofList (node.declaredNames source)).toList ↔
      name ∈ node.declaredNames source := by
    rw [← NameSet.mem_def, NameSet.mem_ofList]
  rw [RuleTable.get?, outcome.sets_settle, ← isMember]
  constructor
  · intro found
    obtain ⟨other, isDeclared, rfl⟩ := List.mem_map.mp (List.mem_of_find?_eq_some found)
    have sameName := List.find?_some found
    cases eq_of_beq sameName
    exact ⟨isDeclared, rfl⟩
  · rintro ⟨isDeclared, rfl⟩
    refine find?_eq_some_of_unique (List.mem_map_of_mem isDeclared) (beq_self_eq_true _) ?_
    intro other isOther sameName
    obtain ⟨otherName, _, rfl⟩ := List.mem_map.mp isOther
    cases eq_of_beq sameName
    rfl

namespace Analysis

variable {source : String} {analysis : Analysis}

theorem rule?_eq_some_iff
    {tag : Tag}
    {preamble grammars : List Node}
    (distinct : (Node.file tag preamble grammars).DistinctIds)
    (analyzed : analyze source (.file tag preamble grammars) = .ok analysis)
    {grammarId : Nat}
    {name : String}
    {set : AlternativeSet} :
    analysis.rule? grammarId name = some set ↔
      ∃ node ∈ grammars, node.id = grammarId ∧ name ∈ node.declaredNames source ∧
        node.alternativeSet source analysis.ruleNames name = set := by
  rw [rule?, Option.bind_eq_some_iff]
  constructor
  · rintro ⟨settled, found, isSet⟩
    have isSettled := List.mem_of_find?_eq_some found
    have sameId := List.find?_some found
    obtain ⟨_, _, _, walked, isFile, _, outcomes, rfl⟩ := analyze_eq_ok analyzed
    cases isFile
    obtain ⟨_, isWalked, rfl⟩ := List.mem_map.mp isSettled
    obtain ⟨step, isStep, rfl⟩ := List.mem_map.mp isWalked
    have outcome := outcomes step isStep
    exact ⟨step.1, List.mem_map_of_mem isStep, outcome.nodeId.symm.trans (eq_of_beq sameId),
      outcome.get?_settle_eq_some.mp isSet⟩
  · rintro ⟨node, isGrammar, rfl, isSet⟩
    obtain ⟨grammar, outcome, found⟩ := grammar?_eq_some distinct analyzed isGrammar
    exact ⟨_, found, outcome.get?_settle_eq_some.mpr isSet⟩

/-- The scopes of an analysis are those of the definitions of the file. -/
theorem hasScope_iff
    {tree : Node}
    (analyzed : analyze source tree = .ok analysis)
    {ruleId : Nat}
    {scope : Scope} :
    analysis.HasScope ruleId scope ↔
      ∃ definition ∈ tree.fileDefinitions, definition.id = ruleId ∧
        (definition.occurrenceScope source).settle analysis.ruleNames = scope := by
  constructor
  · rintro ⟨grammar, isGrammar, set, isSet, alternative, isAlternative, rfl, rfl⟩
    obtain ⟨tag, preamble, grammars, rfl, node, isNode, _, rule, isDeclared, rfl⟩ :=
      exists_rule_of_alternative analyzed isGrammar isSet isAlternative
    refine ⟨rule.definition, Node.definition_mem_fileDefinitions ?_, rfl, rfl⟩
    exact Node.hasRule_of_mem_declaredRules isNode isDeclared
  · rintro ⟨definition, isDefinition, rfl, rfl⟩
    obtain ⟨tag, preamble, _, walked, rfl, _, outcomes, rfl⟩ := analyze_eq_ok analyzed
    obtain ⟨node, isNode, inNode⟩ := List.mem_flatMap.mp isDefinition
    obtain ⟨step, isStep, rfl⟩ := List.mem_map.mp isNode
    rw [Node.grammarDefinitions_eq_map] at inNode
    obtain ⟨rule, isDeclared, rfl⟩ := List.mem_map.mp inNode
    refine ⟨_, List.mem_map_of_mem (List.mem_map_of_mem isStep), ?_⟩
    rw [(outcomes step isStep).sets_settle]
    refine ⟨_, List.mem_map_of_mem (a := rule.declaredName source) ?_, ?_⟩
    · rw [← NameSet.mem_def, NameSet.mem_ofList]
      exact List.mem_map_of_mem isDeclared
    · rw [Node.alternatives_alternativeSet]
      refine ⟨_, List.mem_map_of_mem (List.mem_filter.mpr ⟨isDeclared, ?_⟩), rfl, rfl⟩
      exact decide_eq_true rfl

end Analysis

/-! ## Classification in any order -/

/-- Two analyses classify everything alike: they know the same rule names, look
up the same resolutions and arguments, give every definition the same scope and
every rule of every grammar the same flags. -/
structure Analysis.ClassifiesLike (left right : Analysis) : Prop where
  ruleNames : ∀ name, name ∈ left.ruleNames ↔ name ∈ right.ruleNames
  resolutions : ∀ id, left.resolution? id = right.resolution? id
  arguments : ∀ id, left.argument? id = right.argument? id
  scopes : ∀ ruleId scope, left.HasScope ruleId scope ↔ right.HasScope ruleId scope
  flags : ∀ grammarId name,
    (left.rule? grammarId name).map AlternativeSet.flags =
      (right.rule? grammarId name).map AlternativeSet.flags

section

variable {ruleNames ruleNames' : NameSet}
variable (sameNames : ruleNames.contains = ruleNames'.contains)

include sameNames

theorem Occurrence.resolution?_congr (occurrence : Occurrence) :
    occurrence.resolution? ruleNames = occurrence.resolution? ruleNames' := by
  cases occurrence with
  | identifier id name => cases name <;> simp [resolution?, Analysis.resolveIdentifier, sameNames]
  | _ => rfl

theorem Occurrence.argumentKind?_congr
    (scope : Scope)
    (occurrence : Occurrence) :
    occurrence.argumentKind? ruleNames scope = occurrence.argumentKind? ruleNames' scope := by
  cases occurrence with
  | argument id text => simp [argumentKind?, Analysis.argumentKind, sameNames]
  | _ => rfl

theorem Scope.settle_congr (scope : Scope) :
    scope.settle ruleNames = scope.settle ruleNames' := by
  have sameSlots : scope.needsSlot ruleNames = scope.needsSlot ruleNames' := by
    funext name
    rw [needsSlot, needsSlot, sameNames]
  rw [settle, settle, sameSlots]

/-- The flags of a rule do not depend on the order of its definitions. -/
theorem Node.BodyReordered.flags_eq
    {node node' : Node}
    (reordered : BodyReordered node node')
    (source name : String) :
    (node.alternativeSet source ruleNames name).flags =
      (node'.alternativeSet source ruleNames' name).flags := by
  have sameAlternative : alternative source ruleNames = alternative source ruleNames' := by
    funext rule
    rw [alternative, alternative, Scope.settle_congr sameNames]
  have alternatives : (node.alternativeSet source ruleNames name).alternatives.Perm
      (node'.alternativeSet source ruleNames' name).alternatives := by
    rw [alternatives_alternativeSet, alternatives_alternativeSet, sameAlternative]
    exact (reordered.declaredRules_perm.filter _).map _
  have isOverride : (node.alternativeSet source ruleNames name).isOverride =
      (node'.alternativeSet source ruleNames' name).isOverride := alternatives.any_eq
  have isMixed : (node.alternativeSet source ruleNames name).isMixed =
      (node'.alternativeSet source ruleNames' name).isMixed := by
    rw [AlternativeSet.isMixed, AlternativeSet.isMixed, isOverride, alternatives.any_eq]
  have isCacheable : (node.alternativeSet source ruleNames name).isCacheable =
      (node'.alternativeSet source ruleNames' name).isCacheable := alternatives.all_eq
  rw [AlternativeSet.flags, AlternativeSet.flags, isOverride, isMixed, isCacheable]

end

namespace Node.Reordered

variable {source : String} {tree tree' : Node} {analysis analysis' : Analysis}
variable (reordered : Reordered tree tree')
variable (analyzed : analyze source tree = .ok analysis)
variable (analyzed' : analyze source tree' = .ok analysis')

include reordered analyzed analyzed'

theorem mem_ruleNames_iff
    (name : String) :
    name ∈ analysis.ruleNames ↔ name ∈ analysis'.ruleNames :=
  ⟨Analysis.ruleNames_subset analyzed analyzed' reordered.fileDefinitions_perm.subset,
    Analysis.ruleNames_subset analyzed' analyzed reordered.symm.fileDefinitions_perm.subset⟩

theorem contains_ruleNames_eq :
    analysis.ruleNames.contains = analysis'.ruleNames.contains :=
  NameSet.contains_eq (reordered.mem_ruleNames_iff analyzed analyzed')

theorem resolution?_eq_some
    (distinct : tree.DistinctIds)
    {id : Nat}
    {resolution : Resolution}
    (found : analysis.resolution? id = some resolution) :
    analysis'.resolution? id = some resolution := by
  obtain ⟨_, occurrence, recorded, settles⟩ :=
    (Analysis.resolutions_recordsMentions analyzed).exists_record_of_lastEntry
      (Analysis.resolutions_recordsMentions analyzed') resolvedIds_sublist
      (reordered.distinctIds distinct) reordered.fileDefinitions_perm.subset found
  rw [occurrence.resolution?_congr (reordered.contains_ruleNames_eq analyzed analyzed')] at recorded
  exact settles resolution recorded

theorem argument?_eq_some
    (distinct : tree.DistinctIds)
    {id : Nat}
    {kind : ArgumentKind}
    (found : analysis.argument? id = some kind) :
    analysis'.argument? id = some kind := by
  obtain ⟨_, occurrence, recorded, settles⟩ :=
    (Analysis.arguments_recordsMentions analyzed).exists_record_of_lastEntry
      (Analysis.arguments_recordsMentions analyzed') argumentIds_sublist
      (reordered.distinctIds distinct) reordered.fileDefinitions_perm.subset found
  rw [occurrence.argumentKind?_congr (reordered.contains_ruleNames_eq analyzed analyzed')]
    at recorded
  exact settles kind recorded

theorem hasScope
    {ruleId : Nat}
    {scope : Scope}
    (has : analysis.HasScope ruleId scope) :
    analysis'.HasScope ruleId scope := by
  obtain ⟨definition, isDefinition, sameId, settled⟩ := (Analysis.hasScope_iff analyzed).mp has
  refine (Analysis.hasScope_iff analyzed').mpr
    ⟨definition, reordered.fileDefinitions_perm.subset isDefinition, sameId, ?_⟩
  rw [← settled, Scope.settle_congr (reordered.contains_ruleNames_eq analyzed analyzed')]

theorem flags_eq_some
    (distinct : tree.DistinctIds)
    {grammarId : Nat}
    {name : String}
    {flags : Bool × Bool × Bool}
    (found : (analysis.rule? grammarId name).map AlternativeSet.flags = some flags) :
    (analysis'.rule? grammarId name).map AlternativeSet.flags = some flags := by
  have sameNames := reordered.contains_ruleNames_eq analyzed analyzed'
  have distinct' := reordered.distinctIds distinct
  obtain ⟨set, isSet, rfl⟩ := Option.map_eq_some_iff.mp found
  cases reordered with
  | file order bodies =>
      obtain ⟨node, isGrammar, rfl, isDeclared, rfl⟩ :=
        (Analysis.rule?_eq_some_iff distinct analyzed).mp isSet
      obtain ⟨node', isGrammar', ofNode⟩ := exists_bodyReordered order bodies isGrammar
      have isDeclared' := (ofNode.declaredRules_perm.map _).mem_iff.mp isDeclared
      have isSet' := (Analysis.rule?_eq_some_iff distinct' analyzed').mpr
        ⟨node', isGrammar', ofNode.id_eq, isDeclared', rfl⟩
      rw [isSet', ofNode.flags_eq sameNames]
      rfl

end Node.Reordered

/-- Classification is independent of the order of declarations.  A file with
distinct numbers is analyzed if and only if it is analyzed with its grammars, and
the items of each of them, in another order; and both analyses classify
everything alike. -/
theorem classification_independent_of_order
    (source : String)
    {tree tree' : Node}
    (distinct : tree.DistinctIds)
    (reordered : tree.Reordered tree') :
    ((∃ analysis, analyze source tree = .ok analysis) ↔
      ∃ analysis', analyze source tree' = .ok analysis') ∧
    ∀ analysis analysis', analyze source tree = .ok analysis →
      analyze source tree' = .ok analysis' → analysis.ClassifiesLike analysis' := by
  refine ⟨⟨reordered.exists_analyze, reordered.symm.exists_analyze⟩, ?_⟩
  intro analysis analysis' analyzed analyzed'
  have back := reordered.symm
  have distinct' := reordered.distinctIds distinct
  refine ⟨reordered.mem_ruleNames_iff analyzed analyzed', ?_, ?_, ?_, ?_⟩
  · intro id
    exact Option.ext fun _ => ⟨reordered.resolution?_eq_some analyzed analyzed' distinct,
      back.resolution?_eq_some analyzed' analyzed distinct'⟩
  · intro id
    exact Option.ext fun _ => ⟨reordered.argument?_eq_some analyzed analyzed' distinct,
      back.argument?_eq_some analyzed' analyzed distinct'⟩
  · intro ruleId scope
    exact ⟨reordered.hasScope analyzed analyzed', back.hasScope analyzed' analyzed⟩
  · intro grammarId name
    exact Option.ext fun _ => ⟨reordered.flags_eq_some analyzed analyzed' distinct,
      back.flags_eq_some analyzed' analyzed distinct'⟩

/-- Two grammars; the first uses its own rules and one of the second before they
are defined. -/
def forwardUseSource : String :=
  "G<c, i> A = B x; override B = x; B = A C; H<c, i> C = 'y';"

/-- The rules of the first grammar of `forwardUseSource`. -/
def forwardUseRules : List Node :=
  [.rule ⟨7, ⟨8, 16⟩, {}⟩ false (.code ⟨8, ⟨8, 9⟩, {}⟩) none
      (.sequence ⟨9, ⟨12, 15⟩, {}⟩
        [.identifier ⟨10, ⟨12, 13⟩, {}⟩, .identifier ⟨11, ⟨14, 15⟩, {}⟩]),
    .rule ⟨12, ⟨17, 32⟩, {}⟩ true (.code ⟨13, ⟨26, 27⟩, {}⟩) none
      (.identifier ⟨14, ⟨30, 31⟩, {}⟩),
    .rule ⟨15, ⟨33, 41⟩, {}⟩ false (.code ⟨16, ⟨33, 34⟩, {}⟩) none
      (.sequence ⟨17, ⟨37, 40⟩, {}⟩
        [.identifier ⟨18, ⟨37, 38⟩, {}⟩, .identifier ⟨19, ⟨39, 40⟩, {}⟩])]

/-- The first grammar of `forwardUseSource`, with its rules in some order. -/
def forwardUseGrammar (rules : List Node) : Node :=
  .grammar ⟨1, ⟨0, 41⟩, {}⟩
    (.declaration ⟨2, ⟨0, 7⟩, {}⟩
      (.genericName ⟨3, ⟨0, 7⟩, {}⟩ (.code ⟨4, ⟨0, 1⟩, {}⟩)
        [.code ⟨5, ⟨2, 3⟩, {}⟩, .code ⟨6, ⟨5, 6⟩, {}⟩]) none)
    rules

/-- The second grammar of `forwardUseSource`. -/
def usedGrammar : Node :=
  .grammar ⟨20, ⟨42, 58⟩, {}⟩
    (.declaration ⟨21, ⟨42, 49⟩, {}⟩
      (.genericName ⟨22, ⟨42, 49⟩, {}⟩ (.code ⟨23, ⟨42, 43⟩, {}⟩)
        [.code ⟨24, ⟨44, 45⟩, {}⟩, .code ⟨25, ⟨47, 48⟩, {}⟩]) none)
    [.rule ⟨26, ⟨50, 58⟩, {}⟩ false (.code ⟨27, ⟨50, 51⟩, {}⟩) none
      (.literal ⟨28, ⟨54, 57⟩, {}⟩)]

/-- The tree of `forwardUseSource`. -/
def forwardUseTree : Node :=
  .file ⟨0, ⟨0, 58⟩, {}⟩ [] [forwardUseGrammar forwardUseRules, usedGrammar]

/-- The same tree from its last rule to its first. -/
def backwardUseTree : Node :=
  .file ⟨0, ⟨0, 58⟩, {}⟩ [] [usedGrammar, forwardUseGrammar forwardUseRules.reverse]

/-- The rule names are met in reverse order, and the rule with an overriding and
another definition is found to be mixed either way. -/
theorem forwardUseTree_independent_of_order :
    forwardUseTree.DistinctIds ∧ forwardUseTree.Reordered backwardUseTree ∧
      ∃ analysis analysis',
        analyze forwardUseSource forwardUseTree = .ok analysis ∧
        analyze forwardUseSource backwardUseTree = .ok analysis' ∧
        analysis.ClassifiesLike analysis' ∧
        analysis.ruleNames.toList = ["A", "B", "C"] ∧
        (analysis.rule? 1 "B").map AlternativeSet.flags = some (true, true, false) ∧
        analysis'.ruleNames.toList = ["C", "B", "A"] := by
  have distinct : forwardUseTree.DistinctIds := by decide
  have reordered : forwardUseTree.Reordered backwardUseTree := by
    refine .file (.swap usedGrammar (forwardUseGrammar forwardUseRules) []) ?_
    exact .cons (.same _) (.cons (.grammar (List.reverse_perm _).symm) .nil)
  have looked : (analyze forwardUseSource forwardUseTree).toOption.map (fun analysis =>
      (analysis.ruleNames.toList, (analysis.rule? 1 "B").map AlternativeSet.flags)) =
        some (["A", "B", "C"], some (true, true, false)) := by
    decide +kernel
  have looked' : (analyze forwardUseSource backwardUseTree).toOption.map
      (fun analysis => analysis.ruleNames.toList) = some ["C", "B", "A"] := by
    decide +kernel
  obtain ⟨analysis, analyzed, seen⟩ := exists_eq_ok_of_toOption_map looked
  obtain ⟨analysis', analyzed', seen'⟩ := exists_eq_ok_of_toOption_map looked'
  obtain ⟨names, flags⟩ := Prod.mk.inj seen
  obtain ⟨_, alike⟩ := classification_independent_of_order forwardUseSource distinct reordered
  exact ⟨distinct, reordered, analysis, analysis', analyzed, analyzed',
    alike analysis analysis' analyzed analyzed', names, flags, seen'⟩

end GrammarCompiler
