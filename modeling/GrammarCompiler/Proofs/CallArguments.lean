import GrammarCompiler.Proofs.NameClassification

/-!
# The two classifications of a call argument

An identifier that is passed to a call is classified twice: as an identifier, by
the rule that it calls, and as an argument, by the text that it spells.  The two
agree for every identifier except one that asks for an ancestor's rule.  The
qualifier is not part of the rule's name, so the text with the qualifier is in
general not the name of any rule, and such an argument is not passed as one.
-/

namespace GrammarCompiler

open WrittenName (IsQualified AsksAncestor CallsRule)

/-- An argument is passed as what its identifier stands for. -/
structure ArgumentKind.AgreesWith
    (kind : ArgumentKind)
    (resolution : Resolution) : Prop where
  rule : kind = .rule ↔ ∃ name bypass, resolution = .rule name bypass
  slot : kind = .slot ↔ ∃ name, resolution = .slot name
  passed : kind ≠ .value

namespace ArgumentKind

theorem agreesWith_rule_iff
    {kind : ArgumentKind}
    {name : String}
    {bypass : Bool} :
    kind.AgreesWith (.rule name bypass) ↔ kind = .rule := by
  constructor
  · intro agrees
    exact agrees.rule.mpr ⟨name, bypass, rfl⟩
  · rintro rfl
    exact ⟨⟨fun _ => ⟨name, bypass, rfl⟩, fun _ => rfl⟩, ⟨nofun, nofun⟩, nofun⟩

theorem agreesWith_slot_iff
    {kind : ArgumentKind}
    {name : String} :
    kind.AgreesWith (.slot name) ↔ kind = .slot := by
  constructor
  · intro agrees
    exact agrees.slot.mpr ⟨name, rfl⟩
  · rintro rfl
    exact ⟨⟨nofun, nofun⟩, ⟨fun _ => ⟨name, rfl⟩, fun _ => rfl⟩, nofun⟩

variable {source : String} {ruleNames : NameSet} {rule : Node} {text : String}
variable {kind : ArgumentKind}

/-- An argument is passed as a rule if its text is the name of one. -/
theorem OfArgument.eq_rule_iff
    (ofArgument : kind.OfArgument source ruleNames rule text) :
    kind = .rule ↔ text ∈ ruleNames := by
  cases ofArgument with
  | rule known => exact iff_of_true rfl known
  | slot unknown => exact iff_of_false nofun unknown
  | value unknown => exact iff_of_false nofun unknown

/-- An argument that names no rule is passed on if its text is a variable of the
calling rule. -/
theorem OfArgument.eq_slot
    (ofArgument : kind.OfArgument source ruleNames rule text)
    (unknown : text ∉ ruleNames)
    (isLocal : rule.HasLocal source text) :
    kind = .slot := by
  cases ofArgument with
  | rule known => exact absurd known unknown
  | slot => rfl
  | value _ notLocal => exact absurd isLocal notLocal

end ArgumentKind

namespace Node

/-- What stands in expression position below a node in expression position does
so in the whole expression. -/
theorem InExpression.extend
    {node inner child : Node}
    (inNode : node.InExpression inner)
    (goesOn : child ∈ inner.expressionChildren) :
    node.InExpression child := by
  induction inNode with
  | here => exact .through goesOn .here
  | through isChild _ inductionHypothesis => exact .through isChild (inductionHypothesis goesOn)

/-- An identifier that is passed to a call in expression position stands in
expression position itself. -/
theorem InRule.identifier_argument
    {rule : Node}
    {tag argumentTag : Tag}
    {name : Node}
    {arguments : List Node}
    (inRule : rule.InRule (call tag name arguments))
    (member : identifier argumentTag ∈ arguments) :
    rule.InRule (identifier argumentTag) := by
  obtain ⟨expression, isExpression, inExpression⟩ := inRule
  refine ⟨expression, isExpression, inExpression.extend ?_⟩
  exact List.mem_filter.mpr ⟨member, rfl⟩

end Node

namespace Analysis

variable {source : String} {tree : Node} {analysis : Analysis}

/-- The rule that an identifier with a dot calls is a rule name. -/
theorem mem_ruleNames_of_callsRule
    (analyzed : analyze source tree = .ok analysis)
    {rule : Node}
    {tag : Tag}
    (hasRule : tree.HasRule rule)
    (inRule : rule.InRule (.identifier tag))
    {text name : String}
    {bypass : Bool}
    (isText : tag.read source = .ok text)
    (qualified : IsQualified text)
    (calls : CallsRule text name bypass) :
    name ∈ analysis.ruleNames := by
  rw [mem_ruleNames_iff_written analyzed]
  exact .inr ⟨rule, _, hasRule, inRule, tag, text, bypass, rfl, isText, qualified, calls⟩

/-- Both classifications of an identifier that is passed to a call exist.  They
agree, unless the identifier asks for an ancestor's rule and the text with the
qualifier is not a rule name itself: then the identifier stands for the
ancestor's rule, and the argument is not passed as a rule. -/
theorem argument_agrees_iff
    (distinct : tree.DistinctIds)
    (analyzed : analyze source tree = .ok analysis)
    {rule : Node}
    {tag argumentTag : Tag}
    {name : Node}
    {arguments : List Node}
    (hasRule : tree.HasRule rule)
    (inRule : rule.InRule (.call tag name arguments))
    (member : .identifier argumentTag ∈ arguments) :
    ∃ text resolution kind,
      argumentTag.read source = .ok text ∧
      analysis.resolution? argumentTag.id = some resolution ∧
      analysis.argument? argumentTag.id = some kind ∧
      (kind.AgreesWith resolution ↔
        (AsksAncestor text → Text.trim text ∈ analysis.ruleNames)) ∧
      (AsksAncestor text → ∃ called, resolution = .rule called true) := by
  have inRule' := inRule.identifier_argument member
  obtain ⟨text, resolution, isText, resolved, ofIdentifier⟩ :=
    exists_resolution_of_identifier distinct analyzed hasRule inRule'
  obtain ⟨_, kind, isTrimmed, classified, ofArgument⟩ :=
    exists_kind_of_argument distinct analyzed hasRule inRule member
  obtain ⟨_, isText', rfl⟩ := Tag.readTrimmed_eq_ok.mp isTrimmed
  have sameText := Except.ok.inj ((Tag.read_eq_ok.mpr isText').symm.trans isText)
  subst sameText
  refine ⟨_, resolution, kind, isText, resolved, classified, ?_⟩
  cases ofIdentifier with
  | known notQualified known =>
      rw [ArgumentKind.agreesWith_rule_iff, ofArgument.eq_rule_iff]
      exact ⟨iff_of_true known fun _ => known, fun asks => absurd asks.isQualified notQualified⟩
  | unknown notQualified unknown =>
      have isLocal := Node.HasLocal.reference inRule' isText notQualified
      have notAsked := mt AsksAncestor.isQualified notQualified
      rw [ArgumentKind.agreesWith_slot_iff]
      exact ⟨iff_of_true (ofArgument.eq_slot unknown isLocal) fun asks => absurd asks notAsked,
        fun asks => absurd asks notAsked⟩
  | qualified qualified calls =>
      rw [ArgumentKind.agreesWith_rule_iff, ofArgument.eq_rule_iff]
      cases calls with
      | ancestor isAncestor starts =>
          have asks : AsksAncestor _ := ⟨_, isAncestor, starts⟩
          exact ⟨⟨fun known _ => known, fun known => known asks⟩, fun _ => ⟨_, rfl⟩⟩
      | plain notAsked =>
          have known := mem_ruleNames_of_callsRule analyzed hasRule inRule' isText qualified
            (.plain notAsked)
          exact ⟨iff_of_true known fun _ => known, fun asks => absurd asks notAsked⟩

/-- A rule that passes an ancestor's rule, a rule with a dot, a variable and
itself to a call. -/
def passedNamesSource : String :=
  "G<c, i> A = F(base.X, L.N, y, A);"

/-- The call of `passedNamesSource`. -/
def passedNamesCall : Node :=
  .call ⟨9, ⟨12, 32⟩, {}⟩ (.code ⟨10, ⟨12, 13⟩, {}⟩)
    [.identifier ⟨11, ⟨14, 20⟩, {}⟩, .identifier ⟨12, ⟨22, 25⟩, {}⟩,
      .identifier ⟨13, ⟨27, 28⟩, {}⟩, .identifier ⟨14, ⟨30, 31⟩, {}⟩]

/-- The rule of `passedNamesSource`. -/
def passedNamesRule : Node :=
  .rule ⟨7, ⟨8, 33⟩, {}⟩ false (.code ⟨8, ⟨8, 9⟩, {}⟩) none passedNamesCall

/-- The tree of `passedNamesSource`. -/
def passedNamesTree : Node :=
  .file ⟨0, ⟨0, 33⟩, {}⟩ []
    [.grammar ⟨1, ⟨0, 33⟩, {}⟩
      (.declaration ⟨2, ⟨0, 7⟩, {}⟩
        (.genericName ⟨3, ⟨0, 7⟩, {}⟩ (.code ⟨4, ⟨0, 1⟩, {}⟩)
          [.code ⟨5, ⟨2, 3⟩, {}⟩, .code ⟨6, ⟨5, 6⟩, {}⟩]) none)
      [passedNamesRule]]

/-- What the arguments of `passedNamesCall` stand for and how they are passed. -/
def passedNames (analysis : Analysis) :
    List (Option Resolution) × List (Option ArgumentKind) :=
  ([11, 12, 13, 14].map analysis.resolution?, [11, 12, 13, 14].map analysis.argument?)

theorem hasRule_passedNamesTree : passedNamesTree.HasRule passedNamesRule :=
  ⟨_, _, _, rfl, _, _, _, List.mem_cons_self, _, List.mem_cons_self, .here rfl⟩

theorem inRule_passedNamesRule : passedNamesRule.InRule passedNamesCall :=
  ⟨_, List.mem_cons_self, .here⟩

/-- The rule with a dot is passed as a rule, although no definition has its
name. -/
theorem argument_agrees_passedNames :
    passedNamesTree.DistinctIds ∧
      ∃ analysis, analyze passedNamesSource passedNamesTree = .ok analysis ∧
        passedNamesTree.HasRule passedNamesRule ∧
        passedNamesRule.InRule passedNamesCall ∧
        ∃ text resolution kind,
          (⟨12, ⟨22, 25⟩, {}⟩ : Tag).read passedNamesSource = .ok text ∧
          analysis.resolution? 12 = some resolution ∧
          analysis.argument? 12 = some kind ∧
          (kind.AgreesWith resolution ↔
            (AsksAncestor text → Text.trim text ∈ analysis.ruleNames)) ∧
          (AsksAncestor text → ∃ called, resolution = .rule called true) := by
  have distinct : passedNamesTree.DistinctIds := by decide
  have succeeds : (analyze passedNamesSource passedNamesTree).toOption.map (fun _ => ()) =
      some () := by
    decide +kernel
  obtain ⟨analysis, analyzed, -⟩ := exists_eq_ok_of_toOption_map succeeds
  exact ⟨distinct, analysis, analyzed, hasRule_passedNamesTree, inRule_passedNamesRule,
    argument_agrees_iff distinct analyzed hasRule_passedNamesTree inRule_passedNamesRule
      (.tail _ List.mem_cons_self)⟩

/-- The identifier that asks for an ancestor's rule stands for that rule, but it is
passed as a value. -/
theorem ancestor_argument_passed_as_value :
    passedNamesTree.DistinctIds ∧ passedNamesTree.HasRule passedNamesRule ∧
      passedNamesRule.InRule passedNamesCall ∧
      ∃ analysis, analyze passedNamesSource passedNamesTree = .ok analysis ∧
        analysis.resolution? 11 = some (.rule "X" true) ∧
        analysis.argument? 11 = some .value ∧
        ¬ArgumentKind.value.AgreesWith (.rule "X" true) := by
  have looked : (analyze passedNamesSource passedNamesTree).toOption.map passedNames =
      some ([some (.rule "X" true), some (.rule "L.N" false), some (.slot "y"),
          some (.rule "A" false)],
        [some .value, some .rule, some .slot, some .rule]) := by
    decide +kernel
  obtain ⟨analysis, analyzed, seen⟩ := exists_eq_ok_of_toOption_map looked
  obtain ⟨resolutions, kinds⟩ := Prod.mk.inj seen
  refine ⟨by decide, hasRule_passedNamesTree, inRule_passedNamesRule, analysis, analyzed,
    ?_, ?_, ?_⟩
  · exact (List.cons.inj resolutions).1
  · exact (List.cons.inj kinds).1
  · intro agrees
    exact agrees.passed rfl

end Analysis
end GrammarCompiler
