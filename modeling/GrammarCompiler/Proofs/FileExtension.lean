import GrammarCompiler.Proofs.PerCallValues

/-!
# Further grammars at the end of a file

Grammars that are added to a file make more rule names known, and that is all they
do to the grammars before them.  An unbound name that becomes the name of a rule
loses its slot, and what was resolved to the slot is resolved to the rule; nothing
else is classified in another way.
-/

namespace GrammarCompiler

/-! ## Under more rule names -/

/-- A scope after further rule names became known: the unbound names among them
lose their slots. -/
def Scope.reclassify (scope : Scope) (ruleNames ruleNames' : NameSet) : Scope :=
  { scope with
    slots := scope.slots.filter fun name =>
      ¬(name ∉ scope.bound ∧ name ∉ ruleNames ∧ name ∈ ruleNames') }

/-- A rule after further rule names became known. -/
structure AlternativeSet.ReclassifiedTo
    (ruleNames ruleNames' : NameSet)
    (before after : AlternativeSet) : Prop where
  name : after.name = before.name
  alternatives : after.alternatives = before.alternatives.map fun alternative =>
    { alternative with scope := alternative.scope.reclassify ruleNames ruleNames' }
  isCacheable : before.isCacheable = true → after.isCacheable = true

/-- A grammar after further rule names became known. -/
structure GrammarAnalysis.ReclassifiedTo
    (ruleNames ruleNames' : NameSet)
    (before after : GrammarAnalysis) : Prop where
  nodeId : after.nodeId = before.nodeId
  declaration : after.declaration = before.declaration
  rules : List.Forall₂ (AlternativeSet.ReclassifiedTo ruleNames ruleNames')
    before.rules.sets after.rules.sets

/-- An identifier or a call after further rule names became known. -/
inductive Resolution.ReclassifiedTo : Resolution → Resolution → Prop where
  | same (resolution : Resolution) : ReclassifiedTo resolution resolution
  | becameRule (name : String) : ReclassifiedTo (.slot name) (.rule name false)

/-- An argument after further rule names became known. -/
inductive ArgumentKind.ReclassifiedTo : ArgumentKind → ArgumentKind → Prop where
  | same (kind : ArgumentKind) : ReclassifiedTo kind kind
  | becameRule (kind : ArgumentKind) : ReclassifiedTo kind .rule

section

variable {ruleNames ruleNames' : NameSet}
variable (more : ∀ name ∈ ruleNames, name ∈ ruleNames')

include more

theorem Scope.reclassify_settle (scope : Scope) :
    (scope.settle ruleNames).reclassify ruleNames ruleNames' = scope.settle ruleNames' := by
  rw [reclassify, settle, settle]
  simp only [List.filter_filter, mk.injEq, true_and, and_true]
  refine List.filter_congr fun name _ => ?_
  have known := more name
  rw [Bool.eq_iff_iff, Bool.and_eq_true, decide_eq_true_eq, needsSlot_iff, needsSlot_iff]
  tauto

theorem AlternativeSet.reclassifiedTo_settle (set : AlternativeSet) :
    ReclassifiedTo ruleNames ruleNames' (set.settle ruleNames) (set.settle ruleNames') where
  name := rfl
  alternatives := by
    simp only [settle, List.map_map]
    refine List.map_congr_left fun alternative _ => ?_
    rw [Function.comp, Scope.reclassify_settle more]
  isCacheable := by
    simp only [settle, List.all_map, List.all_eq_true, Function.comp]
    intro cacheable alternative member
    obtain ⟨noBindings, noSlots⟩ := Bool.and_eq_true_iff.mp (cacheable alternative member)
    refine Bool.and_eq_true_iff.mpr ⟨noBindings, ?_⟩
    rw [← Scope.reclassify_settle more, Scope.reclassify, List.isEmpty_iff.mp noSlots]
    rfl

theorem GrammarAnalysis.reclassifiedTo_settle (grammar : GrammarAnalysis) :
    ReclassifiedTo ruleNames ruleNames' (grammar.settle ruleNames)
      (grammar.settle ruleNames') where
  nodeId := rfl
  declaration := rfl
  rules := by
    simp only [settle, RuleTable.settle, List.forall₂_map_left_iff, List.forall₂_map_right_iff,
      List.forall₂_same]
    intro set _
    exact AlternativeSet.reclassifiedTo_settle more set

theorem Analysis.reclassifiedTo_resolveIdentifier (written : WrittenName) :
    (resolveIdentifier ruleNames written).ReclassifiedTo
      (resolveIdentifier ruleNames' written) := by
  cases written with
  | qualified name bypass => exact .same _
  | bare name =>
      by_cases isRule : name ∈ ruleNames
      · have isRule' := more name isRule
        rw [← NameSet.contains_iff] at isRule isRule'
        rw [resolveIdentifier, resolveIdentifier, if_pos isRule, if_pos isRule']
        exact .same _
      · rw [resolveIdentifier_eq_slot_iff.mpr ⟨rfl, isRule⟩, resolveIdentifier]
        split
        · exact .becameRule name
        · exact .same _

theorem Analysis.reclassifiedTo_argumentKind
    (scope : Scope)
    (text : String) :
    (argumentKind ruleNames scope text).ReclassifiedTo (argumentKind ruleNames' scope text) := by
  by_cases isRule' : text ∈ ruleNames'
  · have becomesRule : argumentKind ruleNames' scope text = .rule :=
      if_pos ((NameSet.contains_iff _ _).mpr isRule')
    rw [becomesRule]
    exact .becameRule _
  · have notRule : text ∉ ruleNames := fun isRule => isRule' (more text isRule)
    rw [← NameSet.contains_iff] at isRule' notRule
    rw [argumentKind, argumentKind, if_neg isRule', if_neg notRule]
    exact .same _

namespace Occurrence

theorem exists_resolution?
    {occurrence : Occurrence}
    {id : Nat}
    {resolution : Resolution}
    (resolved : occurrence.resolution? ruleNames = some (id, resolution)) :
    ∃ resolution', occurrence.resolution? ruleNames' = some (id, resolution') ∧
      resolution.ReclassifiedTo resolution' := by
  cases occurrence with
  | identifier id written =>
      cases resolved
      exact ⟨_, rfl, Analysis.reclassifiedTo_resolveIdentifier more written⟩
  | callee id written =>
      cases resolved
      exact ⟨_, rfl, .same _⟩
  | _ => cases resolved

theorem exists_argumentKind?
    {occurrence : Occurrence}
    {scope : Scope}
    {id : Nat}
    {kind : ArgumentKind}
    (classified : occurrence.argumentKind? ruleNames scope = some (id, kind)) :
    ∃ kind', occurrence.argumentKind? ruleNames' scope = some (id, kind') ∧
      kind.ReclassifiedTo kind' := by
  cases occurrence with
  | argument id text =>
      cases classified
      exact ⟨_, rfl, Analysis.reclassifiedTo_argumentKind more scope text⟩
  | _ => cases classified

end Occurrence

end

/-! ## Whole files -/

/-- A grammar is walked to one outcome only. -/
theorem Analyzer.GrammarOutcome.unique
    {source : String}
    {node : Node}
    {grammar grammar' : GrammarAnalysis}
    (outcome : GrammarOutcome source node grammar)
    (outcome' : GrammarOutcome source node grammar') :
    grammar = grammar' := by
  obtain ⟨tag, header, body, rfl, declared⟩ := outcome.declared
  obtain ⟨_, _, _, isGrammar, declared'⟩ := outcome'.declared
  cases isGrammar
  have sameDeclaration := Except.ok.inj (declared.symm.trans declared')
  have sameId := outcome.nodeId.trans outcome'.nodeId.symm
  have sameRules := outcome.rules.trans outcome'.rules.symm
  cases grammar
  cases grammar'
  cases sameDeclaration
  cases sameId
  cases sameRules
  rfl

namespace Analysis

/-- An analysis after further grammars were added to the file: all that is known
of its own grammars stays known, up to names that became rules. -/
structure ExtendsTo (before after : Analysis) : Prop where
  grammars : ∀ (index : Nat) (grammar : GrammarAnalysis),
    before.grammars[index]? = some grammar →
    ∃ grammar', after.grammars[index]? = some grammar' ∧
      grammar.ReclassifiedTo before.ruleNames after.ruleNames grammar'
  resolutions : ∀ id resolution, before.resolution? id = some resolution →
    ∃ resolution', after.resolution? id = some resolution' ∧
      resolution.ReclassifiedTo resolution'
  arguments : ∀ id kind, before.argument? id = some kind →
    ∃ kind', after.argument? id = some kind' ∧ kind.ReclassifiedTo kind'

/-- The grammars of an analysis stand in the order of the file. -/
theorem forall₂_grammars
    {source : String}
    {tag : Tag}
    {preamble grammars : List Node}
    {analysis : Analysis}
    (analyzed : analyze source (.file tag preamble grammars) = .ok analysis) :
    List.Forall₂
      (fun settled node => ∃ grammar, Analyzer.GrammarOutcome source node grammar ∧
        settled = grammar.settle analysis.ruleNames)
      analysis.grammars grammars := by
  obtain ⟨_, _, _, walked, isFile, _, outcomes, rfl⟩ := analyze_eq_ok analyzed
  cases isFile
  simp only [Analyzer.finish, List.forall₂_map_left_iff, List.forall₂_map_right_iff,
    List.forall₂_same]
  intro step isStep
  exact ⟨step.2, outcomes step isStep, rfl⟩

/-- Extending a file is monotone.  With further grammars at its end, every grammar
keeps its place, its declaration, its rules and their definitions; of the slots
of a definition, exactly those of unbound names go that became rule names.  Rules
are resolved as before and slots as before or to the rule of their name,
arguments are passed as before or as rules, and what is cacheable stays so. -/
theorem extension_monotone
    {source : String}
    {tag : Tag}
    {preamble grammars further : List Node}
    {before after : Analysis}
    (distinct : (Node.file tag preamble (grammars ++ further)).DistinctIds)
    (analyzed : analyze source (.file tag preamble grammars) = .ok before)
    (analyzed' : analyze source (.file tag preamble (grammars ++ further)) = .ok after) :
    before.ExtendsTo after := by
  have kept : (Node.file tag preamble grammars).fileDefinitions ⊆
      (Node.file tag preamble (grammars ++ further)).fileDefinitions := by
    rw [Node.fileDefinitions, Node.fileDefinitions, List.flatMap_append]
    exact List.subset_append_left _ _
  have more : ∀ name ∈ before.ruleNames, name ∈ after.ruleNames := fun _ =>
    ruleNames_subset analyzed analyzed' kept
  refine ⟨?_, ?_, ?_⟩
  · intro index settled isAt
    obtain ⟨node, nodeAt, grammar, outcome, rfl⟩ :=
      exists_partner_at (forall₂_grammars analyzed) isAt
    have nodeAt' : (grammars ++ further)[index]? = some node := by
      rw [List.getElem?_append_left (List.getElem?_eq_some_iff.mp nodeAt).1, nodeAt]
    obtain ⟨settled', isAt', grammar', outcome', rfl⟩ :=
      exists_partner_at (forall₂_grammars analyzed').flip nodeAt'
    cases outcome.unique outcome'
    exact ⟨_, isAt', grammar.reclassifiedTo_settle more⟩
  · intro id resolution found
    obtain ⟨_, occurrence, recorded, settles⟩ :=
      (resolutions_recordsMentions analyzed).exists_record_of_lastEntry
        (resolutions_recordsMentions analyzed') Node.resolvedIds_sublist distinct kept found
    obtain ⟨resolution', recorded', reclassified⟩ := Occurrence.exists_resolution? more recorded
    exact ⟨resolution', settles resolution' recorded', reclassified⟩
  · intro id kind found
    obtain ⟨_, occurrence, recorded, settles⟩ :=
      (arguments_recordsMentions analyzed).exists_record_of_lastEntry
        (arguments_recordsMentions analyzed') Node.argumentIds_sublist distinct kept found
    obtain ⟨kind', recorded', reclassified⟩ := Occurrence.exists_argumentKind? more recorded
    exact ⟨kind', settles kind' recorded', reclassified⟩

/-- A grammar in which a name is passed on and matched, and another that asks for
an ancestor's rule of that name. -/
def claimedNameSource : String :=
  "G<c, i> A = x:F(B) B; H<c, i> C = Super.B;"

/-- The first grammar of `claimedNameSource`. -/
def claimedNameGrammar : Node :=
  .grammar ⟨1, ⟨0, 21⟩, {}⟩
    (.declaration ⟨2, ⟨0, 7⟩, {}⟩
      (.genericName ⟨3, ⟨0, 7⟩, {}⟩ (.code ⟨4, ⟨0, 1⟩, {}⟩)
        [.code ⟨5, ⟨2, 3⟩, {}⟩, .code ⟨6, ⟨5, 6⟩, {}⟩]) none)
    [.rule ⟨7, ⟨8, 21⟩, {}⟩ false (.code ⟨8, ⟨8, 9⟩, {}⟩) none
      (.sequence ⟨9, ⟨12, 20⟩, {}⟩
        [.binding ⟨10, ⟨12, 18⟩, {}⟩
          (.call ⟨11, ⟨14, 18⟩, {}⟩ (.code ⟨12, ⟨14, 15⟩, {}⟩)
            [.identifier ⟨13, ⟨16, 17⟩, {}⟩])
          (.code ⟨14, ⟨12, 13⟩, {}⟩),
          .identifier ⟨15, ⟨19, 20⟩, {}⟩])]

/-- The second grammar of `claimedNameSource`. -/
def claimingGrammar : Node :=
  .grammar ⟨16, ⟨22, 42⟩, {}⟩
    (.declaration ⟨17, ⟨22, 29⟩, {}⟩
      (.genericName ⟨18, ⟨22, 29⟩, {}⟩ (.code ⟨19, ⟨22, 23⟩, {}⟩)
        [.code ⟨20, ⟨24, 25⟩, {}⟩, .code ⟨21, ⟨27, 28⟩, {}⟩]) none)
    [.rule ⟨22, ⟨30, 42⟩, {}⟩ false (.code ⟨23, ⟨30, 31⟩, {}⟩) none
      (.identifier ⟨24, ⟨34, 41⟩, {}⟩)]

/-- How the name that both grammars of `claimedNameSource` use is passed and
resolved, and the slots of all definitions. -/
def claimedName (analysis : Analysis) :
    Option ArgumentKind × Option Resolution × List (List String) :=
  (analysis.argument? 13, analysis.resolution? 15,
    (analysis.grammars.flatMap (·.scopes)).map (·.slots))

/-- The name has a slot until the second grammar makes it the name of a rule. -/
theorem extension_claims_name :
    (Node.file ⟨0, ⟨0, 42⟩, {}⟩ [] ([claimedNameGrammar] ++ [claimingGrammar])).DistinctIds ∧
      ∃ before after,
        analyze claimedNameSource (.file ⟨0, ⟨0, 42⟩, {}⟩ [] [claimedNameGrammar]) =
          .ok before ∧
        analyze claimedNameSource
          (.file ⟨0, ⟨0, 42⟩, {}⟩ [] ([claimedNameGrammar] ++ [claimingGrammar])) = .ok after ∧
        before.ExtendsTo after ∧
        claimedName before = (some .slot, some (.slot "B"), [["x", "B"]]) ∧
        claimedName after = (some .rule, some (.rule "B" false), [["x"], []]) := by
  have distinct : (Node.file ⟨0, ⟨0, 42⟩, {}⟩ []
      ([claimedNameGrammar] ++ [claimingGrammar])).DistinctIds := by
    decide
  have looked : (analyze claimedNameSource
      (.file ⟨0, ⟨0, 42⟩, {}⟩ [] [claimedNameGrammar])).toOption.map claimedName =
        some (some .slot, some (.slot "B"), [["x", "B"]]) := by
    decide +kernel
  have looked' : (analyze claimedNameSource (.file ⟨0, ⟨0, 42⟩, {}⟩ []
      ([claimedNameGrammar] ++ [claimingGrammar]))).toOption.map claimedName =
        some (some .rule, some (.rule "B" false), [["x"], []]) := by
    decide +kernel
  obtain ⟨before, analyzed, seen⟩ := exists_eq_ok_of_toOption_map looked
  obtain ⟨after, analyzed', seen'⟩ := exists_eq_ok_of_toOption_map looked'
  exact ⟨distinct, before, after, analyzed, analyzed',
    extension_monotone distinct analyzed analyzed', seen, seen'⟩

end Analysis
end GrammarCompiler
