import GrammarCompiler.Proofs.Retagging

/-!
# Synthesis under other tags

Synthesis looks names, grammars and rules up by their numbers.  If different
numbers stay different, each look-up in the tables with the new numbers finds what
it found before, so the generated text is the same, or synthesis fails as before.
-/

namespace GrammarCompiler

/-! ## Looking new numbers up -/

namespace Analysis

section

variable {number : Nat → Nat} (injective : Function.Injective number)

include injective

theorem lastEntry_map_renumber
    (entries : List (Nat × α))
    (key : Nat) :
    lastEntry? (entries.map (Prod.map number id)) (number key) = lastEntry? entries key := by
  unfold lastEntry?
  rw [← List.map_reverse]
  induction entries.reverse with
  | nil => rfl
  | cons entry others inductionHypothesis =>
      rw [List.map_cons, List.lookup_cons, List.lookup_cons, inductionHypothesis, Prod.map_fst]
      have sameKey : (number key == number entry.1) = (key == entry.1) := by
        rw [Bool.eq_iff_iff, beq_iff_eq, beq_iff_eq, injective.eq_iff]
      rw [sameKey]
      rfl

theorem resolution?_renumber
    (analysis : Analysis)
    (key : Nat) :
    (analysis.renumber number).resolution? (number key) = analysis.resolution? key :=
  lastEntry_map_renumber injective analysis.resolutions key

theorem argument?_renumber
    (analysis : Analysis)
    (key : Nat) :
    (analysis.renumber number).argument? (number key) = analysis.argument? key :=
  lastEntry_map_renumber injective analysis.arguments key

theorem grammar?_renumber
    (analysis : Analysis)
    (key : Nat) :
    (analysis.renumber number).grammar? (number key) =
      (analysis.grammar? key).map (GrammarAnalysis.renumber number) := by
  rw [grammar?, grammar?, renumber, List.find?_map]
  congr 2
  funext grammar
  simp [GrammarAnalysis.renumber, injective.eq_iff]

end

end Analysis

/-! ## Flattening and rules -/

namespace Node

theorem map_mapTags_splice
    {members : Node → List Node}
    {change : Tag → Tag}
    (ofMembers : ∀ node : Node,
      members (node.mapTags change) = (members node).map (mapTags change))
    (active : Bool)
    (nodes : List Node) :
    splice active members (nodes.map (mapTags change)) =
      (splice active members nodes).map (mapTags change) := by
  cases active with
  | false => rfl
  | true => simp only [splice, if_pos, List.flatMap_map, List.map_flatMap, ofMembers]

theorem sequenceItems_mapTags
    (change : Tag → Tag)
    (node : Node) :
    (node.mapTags change).sequenceItems = node.sequenceItems.map (mapTags change) := by
  by_cases isSequence : node.kind = .sequence
  · cases node with
    | sequence tag items => simp [mapTags, sequenceItems]
    | _ => cases isSequence
  · have isSequence' : (node.mapTags change).kind ≠ .sequence := by rwa [kind_mapTags]
    rw [sequenceItems_of_kind_ne isSequence, sequenceItems_of_kind_ne isSequence']
    rfl

theorem choiceAlternatives_mapTags
    (change : Tag → Tag)
    (node : Node) :
    (node.mapTags change).choiceAlternatives = node.choiceAlternatives.map (mapTags change) := by
  by_cases isChoice : node.kind = .choice
  · cases node with
    | choice tag alternatives => simp [mapTags, choiceAlternatives]
    | _ => cases isChoice
  · have isChoice' : (node.mapTags change).kind ≠ .choice := by rwa [kind_mapTags]
    rw [choiceAlternatives_of_kind_ne isChoice, choiceAlternatives_of_kind_ne isChoice']
    rfl

/-- Flattening does not look at tags. -/
theorem flatten_mapTags
    (change : Tag → Tag)
    (flattening : Flattening)
    (node : Node) :
    (node.mapTags change).flatten flattening = (node.flatten flattening).mapTags change := by
  have ofMembers
      {nodes : List Node}
      (each : ∀ node ∈ nodes,
        (node.mapTags change).flatten flattening = (node.flatten flattening).mapTags change) :
      (nodes.map (mapTags change)).map (Node.flatten flattening) =
        (nodes.map (Node.flatten flattening)).map (mapTags change) := by
    simp only [List.map_map]
    exact List.map_congr_left each
  induction node with
  | sequence tag items ofItems =>
      simp only [mapTags, Node.flatten, mapTagsAll_eq_map, flattenAll_eq_map,
        spliceSequences_eq_splice, ofMembers ofItems,
        map_mapTags_splice (sequenceItems_mapTags change)]
  | choice tag alternatives ofAlternatives =>
      simp only [mapTags, Node.flatten, mapTagsAll_eq_map, flattenAll_eq_map,
        spliceChoices_eq_splice, ofMembers ofAlternatives,
        map_mapTags_splice (choiceAlternatives_mapTags change)]
  | file tag other members _ ofRest
  | grammar tag other members _ ofRest
  | call tag other members _ ofRest =>
      simp only [mapTags, Node.flatten, mapTagsAll_eq_map, flattenAll_eq_map, ofMembers ofRest]
  | rule tag isOverride name params? body _ ofParams ofBody =>
      cases params? with
      | none => simp only [mapTags, Node.flatten, ofBody]
      | some params => simp only [mapTags, Node.flatten, ofBody, ofParams params rfl]
  | unary tag operator operand ofOperand => simp only [mapTags, Node.flatten, ofOperand]
  | binding tag operand other ofOperand
  | condition tag operand other ofOperand
  | action tag operand other ofOperand => simp only [mapTags, Node.flatten, ofOperand]
  | declaration tag name base? => cases base? <;> simp only [mapTags, Node.flatten]
  | _ => simp only [mapTags, Node.flatten]

end Node

namespace Synthesis

namespace RuleNode

/-- The same rule under other tags. -/
def retag (retagging : Retagging) (rule : RuleNode) : RuleNode where
  id := retagging.number rule.id
  params? := rule.params?.map (Node.mapTags retagging.change)
  body := rule.body.mapTags retagging.change

/-- The same is read of a rule under changed tags. -/
structure KeepsReadings
    (retagging : Retagging)
    (source : String)
    (rule : RuleNode) : Prop where
  params : ∀ params ∈ rule.params?, retagging.KeepsReadings source params
  body : retagging.KeepsReadings source rule.body

end RuleNode

theorem ruleNodes_mapTags
    (retagging : Retagging)
    (node : Node) :
    ruleNodes (node.mapTags retagging.change) =
      (ruleNodes node).map (RuleNode.retag retagging) := by
  induction node using Node.childInduction with
  | step node ofChildren =>
      by_cases isRule : node.kind = .rule
      · cases node with
        | rule tag isOverride name params? body =>
            cases params? <;>
              simp [Node.mapTags, ruleNodes, RuleNode.retag, retagging.id_change]
        | _ => cases isRule
      · have isRule' : (node.mapTags retagging.change).kind ≠ .rule := by
          rwa [Node.kind_mapTags]
        rw [ruleNodes_eq_flatMap_children isRule, ruleNodes_eq_flatMap_children isRule',
          Node.children_mapTags, List.flatMap_map, List.map_flatMap]
        exact List.flatMap_congr ofChildren

variable {retagging : Retagging} {source : String}

theorem keepsReadings_of_mem_ruleNodes
    {node : Node}
    (keeps : retagging.KeepsReadings source node)
    {rule : RuleNode}
    (member : rule ∈ ruleNodes node) :
    rule.KeepsReadings retagging source := by
  induction node using Node.childInduction with
  | step node ofChildren =>
      by_cases isRule : node.kind = .rule
      · cases node with
        | rule tag isOverride name params? body =>
            rw [ruleNodes, List.mem_singleton] at member
            subst member
            constructor
            · intro params isParams
              apply keeps.child
              simp [Node.children, show params? = some params from isParams]
            · apply keeps.child
              simp [Node.children]
        | _ => cases isRule
      · rw [ruleNodes_eq_flatMap_children isRule] at member
        obtain ⟨child, isChild, inChild⟩ := List.mem_flatMap.mp member
        exact ofChildren child isChild (keeps.child isChild) inChild

/-! ## Expressions -/

variable (injective : Function.Injective retagging.number)

include injective

theorem ruleNode?_map_retag
    (rules : List RuleNode)
    (key : Nat) :
    ruleNode? (rules.map (RuleNode.retag retagging)) (retagging.number key) =
      (ruleNode? rules key).map (RuleNode.retag retagging) := by
  rw [ruleNode?, ruleNode?, ← List.map_reverse, List.find?_map]
  congr 2
  funext rule
  simp [RuleNode.retag, injective.eq_iff]

variable (analysis : Analysis)

theorem resolve_change
    {tag : Tag}
    (keeps : retagging.Keeps source tag) :
    resolve source (analysis.renumber retagging.number) (retagging.change tag) =
      resolve source analysis tag := by
  rw [resolve, resolve, retagging.id_change, Analysis.resolution?_renumber injective,
    keeps.readTrimmed, retagging.span_change]

theorem callArgument_change
    {tag : Tag}
    (keeps : retagging.Keeps source tag) :
    callArgument source (analysis.renumber retagging.number) (retagging.change tag) =
      callArgument source analysis tag := by
  rw [callArgument, callArgument, retagging.id_change, Analysis.argument?_renumber injective,
    keeps.readTrimmed, retagging.span_change]

omit injective in
theorem hostCode_change
    {tag : Tag}
    (keeps : retagging.Keeps source tag) :
    hostCode source (retagging.change tag) = hostCode source tag := by
  rw [hostCode, hostCode, keeps.read, keeps.position]

/-- An expression under other tags becomes the same combinator. -/
theorem combinator_mapTags
    {node : Node}
    (keeps : retagging.KeepsReadings source node) :
    combinator source (analysis.renumber retagging.number) (node.mapTags retagging.change) =
      combinator source analysis node := by
  have own : retagging.Keeps source node.tag := keeps.tag
  induction node with
  | literal tag =>
      rw [Node.tag] at own
      simp only [Node.mapTags, combinator, own.read]
  | any tag => simp only [Node.mapTags, combinator]
  | identifier tag =>
      rw [Node.tag] at own
      simp only [Node.mapTags, combinator, resolve_change injective analysis own]
  | call tag name arguments =>
      rw [Node.tag] at own
      have sameArguments :
          (arguments.map (Node.mapTags retagging.change)).mapM
              (fun node => callArgument source (analysis.renumber retagging.number) node.tag) =
            arguments.mapM fun node => callArgument source analysis node.tag := by
        apply mapM_map_eq
        intro argument member
        rw [Node.tag_mapTags]
        exact callArgument_change injective analysis (keeps.child (.tail _ member)).tag
      rw [Node.mapTags, combinator, combinator, resolve_change injective analysis own,
        Node.mapTagsAll_eq_map, sameArguments]
  | unary tag operator operand ofOperand =>
      have keepsOperand := keeps.child List.mem_cons_self
      simp only [Node.mapTags, combinator, ofOperand keepsOperand keepsOperand.tag]
  | binding tag operand captured ofOperand =>
      have keepsOperand := keeps.child List.mem_cons_self
      have keepsCaptured := keeps.child (.tail _ List.mem_cons_self)
      simp only [Node.mapTags, combinator, ofOperand keepsOperand keepsOperand.tag,
        Node.tag_mapTags, keepsCaptured.tag.readTrimmed]
  | condition tag operand code ofOperand
  | action tag operand code ofOperand =>
      have keepsOperand := keeps.child List.mem_cons_self
      have keepsCode := keeps.child (.tail _ List.mem_cons_self)
      simp only [Node.mapTags, combinator, ofOperand keepsOperand keepsOperand.tag,
        Node.tag_mapTags, hostCode_change keepsCode.tag]
  | sequence tag members ofMembers
  | choice tag members ofMembers =>
      have each : ∀ member ∈ members,
          combinator source (analysis.renumber retagging.number)
            (member.mapTags retagging.change) = combinator source analysis member :=
        fun member inMembers =>
          ofMembers member inMembers (keeps.child inMembers) (keeps.child inMembers).tag
      by_cases single : ∃ member, members = [member]
      · obtain ⟨member, rfl⟩ := single
        simp only [Node.mapTags, Node.mapTagsAll_eq_map, List.map_cons, List.map_nil, combinator]
        exact each member List.mem_cons_self
      · have single' : ∀ member, members.map (Node.mapTags retagging.change) ≠ [member] := by
          intro member isSingle
          obtain ⟨only, isOnly, -⟩ := List.map_eq_singleton_iff.mp isSingle
          exact single ⟨only, isOnly⟩
        rw [Node.mapTags, Node.mapTagsAll_eq_map, combinator, combinator, combinators_eq_mapM,
          combinators_eq_mapM, mapM_map_eq each]
        · exact fun member isSingle => single ⟨member, isSingle⟩
        · exact single'
  | fail tag message =>
      have keepsMessage := keeps.child List.mem_cons_self
      simp only [Node.mapTags, combinator, Node.tag_mapTags, keepsMessage.tag.read]
  | declaration tag name base? =>
      cases base? <;> simp only [Node.mapTags, combinator, misplaced, retagging.span_change]
  | rule tag isOverride name params? body =>
      cases params? <;> simp only [Node.mapTags, combinator, misplaced, retagging.span_change]
  | _ => simp only [Node.mapTags, combinator, misplaced, retagging.span_change]

/-! ## Rules, classes and files -/

theorem ruleCombinator_retag
    {rule : RuleNode}
    (keeps : rule.KeepsReadings retagging source) :
    ruleCombinator source (analysis.renumber retagging.number) (rule.retag retagging) =
      ruleCombinator source analysis rule := by
  have ofBody := combinator_mapTags injective analysis keeps.body
  have ofParams := keeps.params
  obtain ⟨key, params?, body⟩ := rule
  cases params? with
  | none => exact ofBody
  | some params =>
      simp only [ruleCombinator, RuleNode.retag, Option.map_some] at ofBody ⊢
      rw [combinator_mapTags injective analysis (ofParams params rfl), ofBody]

section

variable {rules : List RuleNode}
variable (keeps : ∀ rule ∈ rules, rule.KeepsReadings retagging source)

include keeps

theorem blocks_map_renumber
    (name : String)
    (index : Nat)
    (alternatives : List Alternative) :
    blocks source (analysis.renumber retagging.number) (rules.map (RuleNode.retag retagging)) name
        index (alternatives.map (Alternative.renumber retagging.number)) =
      blocks source analysis rules name index alternatives := by
  induction alternatives generalizing index with
  | nil => rfl
  | cons alternative alternatives inductionHypothesis =>
      have found := ruleNode?_map_retag injective rules alternative.ruleId
      rw [List.map_cons, blocks, blocks, inductionHypothesis]
      simp only [Alternative.renumber, found]
      cases isRule : ruleNode? rules alternative.ruleId with
      | none => rfl
      | some rule =>
          have isMember := List.mem_reverse.mp (List.mem_of_find?_eq_some isRule)
          simp only [Option.map_some, ruleCombinator_retag injective analysis (keeps rule isMember)]
          rfl

theorem matcherFunction_renumber (set : AlternativeSet) :
    matcherFunction source (analysis.renumber retagging.number)
        (rules.map (RuleNode.retag retagging)) (set.renumber retagging.number) =
      matcherFunction source analysis rules set := by
  have sameOverride : (set.renumber retagging.number).isOverride = set.isOverride := by
    simp only [AlternativeSet.isOverride, AlternativeSet.renumber, List.any_map]
    rfl
  rw [matcherFunction, matcherFunction, sameOverride]
  simp only [AlternativeSet.renumber, blocks_map_renumber injective analysis keeps]

end

theorem matcherClass_mapTags
    {node : Node}
    (keeps : retagging.KeepsReadings source node) :
    matcherClass source (analysis.renumber retagging.number) (node.mapTags retagging.change) =
      matcherClass source analysis node := by
  have sameId : (node.mapTags retagging.change).id = retagging.number node.id := by
    rw [Node.id, Node.tag_mapTags, retagging.id_change, Node.id]
  rw [matcherClass, matcherClass, sameId, Analysis.grammar?_renumber injective, Node.span_mapTags,
    ruleNodes_mapTags]
  cases analysis.grammar? node.id with
  | none => rfl
  | some grammar =>
      have sameFunctions := mapM_map_eq fun set (_ : set ∈ grammar.rules.sets) =>
        matcherFunction_renumber injective analysis
          (fun rule member => keepsReadings_of_mem_ruleNodes keeps member) set
      simp only [Option.map_some, GrammarAnalysis.renumber, RuleTable.renumber, sameFunctions]

omit injective in
theorem preambleLine_mapTags
    {node : Node}
    (keeps : retagging.KeepsReadings source node) :
    preambleLine source (node.mapTags retagging.change) = preambleLine source node := by
  have own := keeps.tag.read
  cases node with
  | usingDirective tag target =>
      simp only [Node.mapTags, preambleLine, Node.tag_mapTags,
        (keeps.child List.mem_cons_self).tag.readTrimmed]
  | declaration tag name base? => cases base? <;> exact own
  | rule tag isOverride name params? body => cases params? <;> exact own
  | _ => exact own

theorem parserFile_mapTags
    {settings : Settings}
    {tree : Node}
    (keeps : retagging.KeepsReadings settings.source tree) :
    parserFile settings (analysis.renumber retagging.number) (tree.mapTags retagging.change) =
      parserFile settings analysis tree := by
  cases tree with
  | file tag preamble grammars =>
      have samePreamble := mapM_map_eq fun node (member : node ∈ preamble) =>
        preambleLine_mapTags (keeps.child (List.mem_append_left _ member))
      have sameClasses := mapM_map_eq fun node (member : node ∈ grammars) =>
        matcherClass_mapTags injective analysis
          (keeps.child (List.mem_append_right _ member))
      simp only [parserFile, Node.mapTags, Node.mapTagsAll_eq_map, samePreamble, sameClasses]
      rfl
  | declaration tag name base? => cases base? <;> rfl
  | rule tag isOverride name params? body => cases params? <;> rfl
  | _ => rfl

end Synthesis

/-- What is generated does not depend on the tags. -/
theorem generate_mapTags
    {retagging : Retagging}
    (injective : Function.Injective retagging.number)
    {settings : Settings}
    {tree : Node}
    (keeps : retagging.KeepsReadings settings.source tree)
    (analysis : Analysis) :
    generate settings (analysis.renumber retagging.number) (tree.mapTags retagging.change) =
      generate settings analysis tree := by
  rw [generate, generate, Synthesis.parserFile_mapTags injective analysis keeps]

/-- Compilation does not depend on the tags. -/
theorem compile_mapTags
    {retagging : Retagging}
    (injective : Function.Injective retagging.number)
    {settings : Settings}
    {tree : Node}
    (keeps : retagging.KeepsReadings settings.source tree) :
    compile settings (tree.mapTags retagging.change) = compile settings tree := by
  rw [compile, compile, analyze_mapTags_eq keeps]
  cases analyze settings.source tree with
  | error failure => rfl
  | ok analysis =>
      have flattened : (tree.mapTags retagging.change).optimize =
          tree.optimize.mapTags retagging.change :=
        Node.flatten_mapTags retagging.change .ofAll tree
      exact (congrArg (generate settings (analysis.renumber retagging.number)) flattened).trans
        (generate_mapTags injective (keeps.flatten .ofAll) analysis)

end GrammarCompiler
