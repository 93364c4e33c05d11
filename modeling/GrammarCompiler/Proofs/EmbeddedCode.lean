import GrammarCompiler.Proofs.EmittedSegments
import GrammarCompiler.Proofs.GeneratedRules
import GrammarCompiler.Proofs.Remembering
import GrammarCompiler.Proofs.SourceSlices

/-!
# Host code is mapped back to its place

The conditions and actions of a rule are embedded in the expression that is emitted
for it, those of an operand before the one on the operand.  Flattening moves the
nodes but keeps that order.  Each code stands in the file as it stands in the
source, under a directive that names its own line there and at its own column; the
match result is declared for code that uses it.
-/

namespace GrammarCompiler

/-! ## Markers -/

namespace Text

theorem occursIn_iff
    {part chars : List Char} :
    occursIn part chars = true ↔ part <:+: chars := by
  induction chars with
  | nil => rw [occursIn, List.isEmpty_iff, List.infix_nil]
  | cons c chars inductionHypothesis =>
      rw [occursIn, Bool.or_eq_true, List.isPrefixOf_iff_prefix, inductionHypothesis,
        List.infix_cons_iff]

theorem contains_iff
    {text part : String} :
    contains text part = true ↔ part.toList <:+: text.toList :=
  occursIn_iff

end Text

/-! ## Host code of a tree -/

/-- Host code in an expression. -/
structure Embedding where
  role : CodeRole
  /-- The node whose text is the code. -/
  code : Node

namespace Node

mutual

/-- The host code of an expression, that of an operand before the one on the
operand.  Nothing is looked for in the arguments of calls. -/
def embeddings : Node → List Embedding
  | unary _ _ operand => operand.embeddings
  | binding _ operand _ => operand.embeddings
  | condition _ operand test => operand.embeddings ++ [⟨.condition, test⟩]
  | action _ operand block => operand.embeddings ++ [⟨.action, block⟩]
  | sequence _ items => embeddingsAll items
  | choice _ alternatives => embeddingsAll alternatives
  | _ => []

/-- The host code of some expressions, one after the other. -/
def embeddingsAll : List Node → List Embedding
  | [] => []
  | node :: nodes => node.embeddings ++ embeddingsAll nodes

end

theorem embeddingsAll_eq_flatMap (nodes : List Node) :
    embeddingsAll nodes = nodes.flatMap embeddings := by
  induction nodes with
  | nil => rfl
  | cons node nodes inductionHypothesis => simp [embeddingsAll, inductionHypothesis]

theorem embeddings_sequence (tag : Tag) (items : List Node) :
    (sequence tag items).embeddings = items.flatMap embeddings := by
  rw [embeddings, embeddingsAll_eq_flatMap]

theorem embeddings_choice (tag : Tag) (alternatives : List Node) :
    (choice tag alternatives).embeddings = alternatives.flatMap embeddings := by
  rw [embeddings, embeddingsAll_eq_flatMap]

/-- Flattening keeps the host code of an expression in its order. -/
theorem embeddings_flatten
    (flattening : Flattening)
    (node : Node) :
    (node.flatten flattening).embeddings = node.embeddings := by
  induction node with
  | sequence tag items ofItems =>
      simp only [flatten, embeddings_sequence, flattenAll_eq_map, spliceSequences_eq_splice]
      rw [flatMap_splice (flatMap_sequenceItems embeddings_sequence), List.flatMap_map]
      exact List.flatMap_congr ofItems
  | choice tag alternatives ofAlternatives =>
      simp only [flatten, embeddings_choice, flattenAll_eq_map, spliceChoices_eq_splice]
      rw [flatMap_splice (flatMap_choiceAlternatives embeddings_choice), List.flatMap_map]
      exact List.flatMap_congr ofAlternatives
  | unary tag operator operand ofOperand => simp only [flatten, embeddings, ofOperand]
  | binding tag operand other ofOperand
  | condition tag operand other ofOperand
  | action tag operand other ofOperand => simp only [flatten, embeddings, ofOperand]
  | rule tag isOverride name params? body => cases params? <;> simp only [flatten, embeddings]
  | _ => simp only [flatten, embeddings]

/-- The host code of a rule, that of its parameters before that of its body. -/
def ruleEmbeddings (rule : Node) : List Embedding :=
  rule.ruleExpressions.flatMap embeddings

theorem FlattensTo.ruleEmbeddings_eq
    {flattening : Flattening}
    {rule flattened : Node}
    (flattens : FlattensTo flattening rule flattened) :
    flattened.ruleEmbeddings = rule.ruleEmbeddings := by
  rcases flattens with rfl | rfl
  · rfl
  · cases rule with
    | rule tag isOverride name params? body =>
        cases params? <;>
          simp [flatten, ruleEmbeddings, ruleExpressions, embeddings_flatten]
    | _ => simp only [flatten, ruleEmbeddings, ruleExpressions]

end Node

/-! ## Code and its place -/

/-- Host code of a tree and what is made of it: the text is that of the source, and
line and column are those of its start there. -/
structure Embedding.IsMappedTo
    (source : String)
    (embedding : Embedding)
    (code : EmbeddedCode) : Prop where
  role : code.role = embedding.role
  text : Text.slice? source embedding.code.span = some code.text
  place : Text.StandsAt source embedding.code.span.start code.line code.column
  declaresResult : code.declaresResult = true ↔
    ∃ marker ∈ ["_IM_Result", "_IM_Start", "_IM_Next"], marker.toList <:+: code.text.toList

theorem HostCode.usesResult_iff
    {code : HostCode} :
    code.usesResult = true ↔
      ∃ marker ∈ ["_IM_Result", "_IM_Start", "_IM_Next"], marker.toList <:+: code.text.toList := by
  simp only [usesResult, resultMarkers, List.any_eq_true, Text.contains_iff]

/-- Host code of a tree and what is made of it, by the text and the position of its
node. -/
def Embedding.IsReadAs (source : String) (embedding : Embedding) (code : EmbeddedCode) : Prop :=
  ∃ host, Synthesis.hostCode source embedding.code.tag = .ok host ∧
    host.embedded embedding.role = code

/-- Host code is read from the source, unless something else is remembered. -/
theorem Embedding.IsReadAs.isMappedTo
    {source : String}
    {embedding : Embedding}
    {code : EmbeddedCode}
    (isRead : embedding.IsReadAs source code)
    (truly : embedding.code.tag.RemembersTruly source) :
    embedding.IsMappedTo source code := by
  obtain ⟨host, isHost, rfl⟩ := isRead
  obtain ⟨text, isText, same⟩ := bind_eq_ok.mp isHost
  cases same
  have sliced : Text.slice? source embedding.code.tag.span = some text :=
    truly.text?_eq_slice?.symm.trans (Tag.read_eq_ok.mp isText)
  have boundary := (Text.exists_slice?_iff.mp ⟨text, sliced⟩).startsAtBoundary
  refine ⟨rfl, sliced, ?_, HostCode.usesResult_iff⟩
  have placed := Text.standsAt_locate boundary
  rw [← truly.position_eq_locate] at placed
  exact placed

/-- The memos of host code are among those of the expression. -/
theorem Node.RemembersTruly.of_mem_embeddings
    {source : String}
    {node : Node}
    (truly : node.RemembersTruly source)
    {embedding : Embedding}
    (isEmbedded : embedding ∈ node.embeddings) :
    embedding.code.tag.RemembersTruly source := by
  induction node with
  | unary tag operator operand ofOperand =>
      exact ofOperand (truly.child List.mem_cons_self) isEmbedded
  | binding tag operand captured ofOperand =>
      exact ofOperand (truly.child List.mem_cons_self) isEmbedded
  | condition tag operand code ofOperand
  | action tag operand code ofOperand =>
      rcases List.mem_append.mp isEmbedded with inOperand | isCode
      · exact ofOperand (truly.child List.mem_cons_self) inOperand
      · cases List.mem_singleton.mp isCode
        have codeTruly := truly.child (List.mem_cons_of_mem _ List.mem_cons_self)
        exact codeTruly code.tag code.tag_mem_tags
  | sequence tag members ofMembers
  | choice tag members ofMembers =>
      simp only [embeddings_sequence, embeddings_choice] at isEmbedded
      obtain ⟨member, isMember, inMember⟩ := List.mem_flatMap.mp isEmbedded
      exact ofMembers member isMember (truly.child isMember) inMember
  | _ => simp [embeddings] at isEmbedded

namespace Synthesis

variable {source : String} {analysis : Analysis} (surroundings : Surroundings)

/-- A combinator embeds the host code of its expression in order. -/
theorem forall₂_isReadAs_of_combinator
    {node : Node}
    {result : Combinator}
    (succeeds : combinator source analysis node = .ok result) :
    List.Forall₂ (Embedding.IsReadAs source) node.embeddings (result.codes surroundings) := by
  induction node generalizing result with
  | literal tag =>
      rw [combinator] at succeeds
      obtain ⟨_, _, same⟩ := bind_eq_ok.mp succeeds
      cases same
      exact .nil
  | any tag =>
      rw [combinator] at succeeds
      cases succeeds
      exact .nil
  | identifier tag =>
      rw [combinator] at succeeds
      obtain ⟨resolution, _, same⟩ := bind_eq_ok.mp succeeds
      cases same
      cases resolution <;> exact .nil
  | call tag name arguments =>
      rw [combinator] at succeeds
      obtain ⟨_, _, succeeds⟩ := bind_eq_ok.mp succeeds
      obtain ⟨_, _, same⟩ := bind_eq_ok.mp succeeds
      cases same
      rw [Combinator.codes_call]
      exact .nil
  | unary tag operator operand ofOperand =>
      rw [combinator] at succeeds
      obtain ⟨_, operandSucceeds, same⟩ := bind_eq_ok.mp succeeds
      cases same
      rw [Combinator.codes_unary]
      exact ofOperand operandSucceeds
  | binding tag operand captured ofOperand =>
      rw [combinator] at succeeds
      obtain ⟨_, operandSucceeds, succeeds⟩ := bind_eq_ok.mp succeeds
      obtain ⟨_, _, same⟩ := bind_eq_ok.mp succeeds
      cases same
      rw [Combinator.codes_capture]
      exact ofOperand operandSucceeds
  | condition tag operand code ofOperand
  | action tag operand code ofOperand =>
      rw [combinator] at succeeds
      obtain ⟨_, operandSucceeds, succeeds⟩ := bind_eq_ok.mp succeeds
      obtain ⟨host, isHost, same⟩ := bind_eq_ok.mp succeeds
      cases same
      simp only [Combinator.codes_condition, Combinator.codes_action, Node.embeddings]
      exact List.rel_append (ofOperand operandSucceeds) (.cons ⟨host, isHost, rfl⟩ .nil)
  | sequence tag members ofMembers
  | choice tag members ofMembers =>
      have each (inner : Node) (isMember : inner ∈ members) (made : Combinator)
          (becomes : combinator source analysis inner = .ok made) :=
        ofMembers inner isMember becomes
      simp only [Node.embeddings_sequence, Node.embeddings_choice]
      by_cases single : ∃ only, members = [only]
      · obtain ⟨only, rfl⟩ := single
        rw [combinator] at succeeds
        rw [List.flatMap_singleton]
        exact each only List.mem_cons_self result succeeds
      · rw [combinator, combinators_eq_mapM] at succeeds
        · obtain ⟨results, isResults, same⟩ := bind_eq_ok.mp succeeds
          cases same
          simp only [Combinator.codes_sequence, Combinator.codes_choice]
          have inStep := forall₂_imp_of_mem (mapM_eq_ok_iff_forall₂.mp isResults) each
          exact List.rel_flatMap inStep fun _ _ isRead => isRead
        · exact fun only isSingle => single ⟨only, isSingle⟩
  | fail tag message =>
      rw [combinator] at succeeds
      obtain ⟨_, _, same⟩ := bind_eq_ok.mp succeeds
      cases same
      exact .nil
  | _ =>
      rw [combinator] at succeeds
      cases succeeds

/-- The combinator of a rule embeds the host code of its parameters and then that
of its body. -/
theorem forall₂_isReadAs_of_ruleCombinator
    {rule : Node}
    (isRule : rule.kind = .rule)
    {result : Combinator}
    (succeeds : ruleCombinator source analysis rule.ruleNode = .ok result) :
    List.Forall₂ (Embedding.IsReadAs source) rule.ruleEmbeddings
      (result.codes surroundings) := by
  have ofBody {made : Combinator} (becomes : combinator source analysis rule.ruleBody = .ok made) :=
    forall₂_isReadAs_of_combinator surroundings becomes
  rw [Node.ruleEmbeddings, Node.ruleExpressions_eq isRule]
  rcases ruleCombinator_eq_ok succeeds with
    ⟨noParams, bodySucceeds⟩ |
    ⟨params, paramsResult, bodyResult, isParams, paramsSucceed, bodySucceeds, rfl⟩
  · rw [show rule.params? = none from noParams]
    simpa using ofBody bodySucceeds
  · rw [show rule.params? = some params from isParams, Combinator.codes_parameters]
    simpa using List.rel_append (forall₂_isReadAs_of_combinator surroundings paramsSucceed)
      (ofBody bodySucceeds)

/-- The code of a rule whose memos are true is mapped back. -/
theorem forall₂_codes_of_ruleCombinator
    {rule : Node}
    (isRule : rule.kind = .rule)
    (truly : rule.RemembersTruly source)
    {result : Combinator}
    (succeeds : ruleCombinator source analysis rule.ruleNode = .ok result) :
    List.Forall₂ (Embedding.IsMappedTo source) rule.ruleEmbeddings
      (result.codes surroundings) := by
  have read := forall₂_isReadAs_of_ruleCombinator surroundings isRule succeeds
  refine forall₂_imp_of_mem read fun embedding isEmbedded code isRead => ?_
  obtain ⟨expression, isExpression, inExpression⟩ := List.mem_flatMap.mp isEmbedded
  have isChild := (Node.ruleExpressions_sublist_children rule).subset isExpression
  exact isRead.isMappedTo ((truly.child isChild).of_mem_embeddings inExpression)

end Synthesis

/-! ## Emitted expressions -/

open Layout (Piece)

/-- The expressions of all blocks are pieces of the file. -/
theorem ParserFile.raw_mem_pieces
    {file : ParserFile}
    {matcher : MatcherClass}
    (isClass : matcher ∈ file.classes)
    {function : MatcherFunction}
    (isFunction : function ∈ matcher.functions)
    {block : DefinitionBlock}
    (isBlock : block ∈ function.blocks) :
    .raw (block.combinator.text (matcher.surroundings file.grammarFile)) ∈ file.pieces := by
  obtain ⟨index, isAt⟩ := List.mem_iff_getElem?.mp isBlock
  have inBlock (surroundings : Surroundings) (level : Nat) :
      .raw (block.combinator.text surroundings) ∈
        MatcherFunction.blockPieces surroundings level index block := by
    simp [MatcherFunction.blockPieces]
  have inFunction (surroundings : Surroundings) (level : Nat) :
      .raw (block.combinator.text surroundings) ∈
        function.pieces surroundings file.mode level := by
    rw [MatcherFunction.pieces_eq]
    refine List.mem_append_left _ (List.mem_append_right _ (List.mem_flatMap.mpr ?_))
    exact ⟨(block, index), List.mem_zipIdx_iff_getElem?.mpr isAt, inBlock _ _⟩
  refine List.mem_append_left _ (List.mem_append_right _ (List.mem_flatMap.mpr ?_))
  refine ⟨matcher, isClass, ?_⟩
  refine List.mem_append_left _ (List.mem_append_right _ (List.mem_flatMap.mpr ?_))
  exact ⟨function, isFunction, inFunction _ _⟩

/-- The expression that is emitted for a rule embeds the host code of the rule, in
its order and nowhere else. -/
structure Node.EmbedsCode
    (source : String)
    (surroundings : Surroundings)
    (rule : Node)
    (combinator : Combinator) : Prop where
  text : combinator.text surroundings =
    Segment.render surroundings (combinator.segments surroundings)
  words : Segment.HasPlainWords (combinator.segments surroundings)
  codes : List.Forall₂ (Embedding.IsMappedTo source) rule.ruleEmbeddings
    (Segment.codes (combinator.segments surroundings))

/-- A block is emitted for the rule of a grammar with the number of a definition. -/
def EmitsRule
    (settings : Settings)
    (node : Node)
    (matcher : MatcherClass)
    (alternative : Alternative)
    (block : DefinitionBlock) : Prop :=
  ∃ rule, node.ReachesRule rule ∧ rule.id = alternative.ruleId ∧
    rule.EmbedsCode settings.source (matcher.surroundings settings.file) block.combinator

/-- The blocks of a class are emitted for the definitions of a grammar. -/
def EmitsRules
    (settings : Settings)
    (analysis : Analysis)
    (node : Node)
    (matcher : MatcherClass) : Prop :=
  ∃ grammar, analysis.grammar? node.id = some grammar ∧
    List.Forall₂
      (fun set function => List.Forall₂ (EmitsRule settings node matcher)
        set.alternatives function.blocks)
      grammar.rules.sets matcher.functions

/-- The rule of a definition is one of the grammar, before and after flattening. -/
theorem Synthesis.exists_rule_of_ruleNode?
    {flattening : Flattening}
    {node : Node}
    {id : Nat}
    {ruleNode : RuleNode}
    (found : ruleNode? (ruleNodes (node.flatten flattening)) id = some ruleNode) :
    ∃ rule flattened, node.ReachesRule rule ∧ rule.id = id ∧
      Node.FlattensTo flattening rule flattened ∧
      (node.flatten flattening).ReachesRule flattened ∧ flattened.ruleNode = ruleNode := by
  have hasNumber : ruleNode.id = id := by simpa using List.find?_some found
  have isRuleNode := List.mem_reverse.mp (List.mem_of_find?_eq_some found)
  rw [ruleNodes_eq_map_rulesIn] at isRuleNode
  obtain ⟨flattened, isFlattened, rfl⟩ := List.mem_map.mp isRuleNode
  obtain ⟨rule, isRule, flattens⟩ :=
    exists_partner (Node.rulesIn_flatten flattening node).flip isFlattened
  exact ⟨rule, flattened, Node.mem_rulesIn_iff.mp isRule,
    (Node.FlattensTo.id_eq flattens).symm.trans hasNumber, flattens,
    Node.mem_rulesIn_iff.mp isFlattened, rfl⟩

theorem Node.RemembersTruly.reached
    {source : String}
    {node rule : Node}
    (truly : node.RemembersTruly source)
    (reached : node.ReachesRule rule) :
    rule.RemembersTruly source := by
  induction reached with
  | here => exact truly
  | through _ isChild _ inductionHypothesis => exact inductionHypothesis (truly.child isChild)

/-- A block embeds the host code of its rule as it was before flattening. -/
theorem Synthesis.IsBlockOf.emitsRule
    {settings : Settings}
    {analysis : Analysis}
    {node : Node}
    (truly : node.RemembersTruly settings.source)
    {alternative : Alternative}
    {block : DefinitionBlock}
    (isBlock : IsBlockOf settings.source analysis (ruleNodes node.optimize) alternative block)
    (matcher : MatcherClass) :
    EmitsRule settings node matcher alternative block := by
  obtain ⟨_, found, emitted⟩ := isBlock.combinator
  obtain ⟨rule, flattened, reached, hasNumber, flattens, reached', rfl⟩ :=
    exists_rule_of_ruleNode? found
  have codes := forall₂_codes_of_ruleCombinator (matcher.surroundings settings.file)
    reached'.kind_eq ((truly.flatten .ofAll).reached reached') emitted
  rw [flattens.ruleEmbeddings_eq] at codes
  exact ⟨rule, reached, hasNumber, (Combinator.render_segments _ _).symm,
    Combinator.hasPlainWords_segments _ _, codes⟩

/-- Every emitted expression is a piece of the file.  It embeds the conditions and
actions of its rule in order, each as it stands in the source and mapped back to
its own place there. -/
theorem embedded_code_is_mapped_back
    {settings : Settings}
    {tree : Node}
    {text : String}
    (nothing : tree.RemembersNothing)
    (compiled : compile settings tree = .ok text) :
    ∃ grammars analysis file, CompilesTo settings tree text grammars analysis file ∧
      (∀ matcher ∈ file.classes, ∀ function ∈ matcher.functions, ∀ block ∈ function.blocks,
        .raw (block.combinator.text (matcher.surroundings settings.file)) ∈ file.pieces) ∧
      List.Forall₂ (EmitsRules settings analysis) grammars file.classes := by
  obtain ⟨grammars, analysis, file, compiles⟩ := exists_compilesTo compiled
  refine ⟨grammars, analysis, file, compiles, ?_, ?_⟩
  · intro matcher isClass function isFunction block isBlock
    rw [← (Synthesis.grammarFile_and_imports_of_parserFile compiles.generated).1]
    exact ParserFile.raw_mem_pieces isClass isFunction isBlock
  · have classes := compiles.classes
    obtain ⟨tag, preamble, rfl⟩ := compiles.isFile
    refine forall₂_imp_of_mem classes fun node isGrammar matcher becomes => ?_
    have truly : node.RemembersTruly settings.source :=
      nothing.remembersTruly.child (List.mem_append_right preamble isGrammar)
    obtain ⟨grammar, found, _, functions⟩ := Synthesis.matcherClass_eq_ok becomes
    have sameId : node.optimize.id = node.id := congrArg Tag.id (Node.tag_flatten .ofAll node)
    refine ⟨grammar, sameId ▸ found, functions.imp fun set function isFunction => ?_⟩
    exact isFunction.blocks.imp fun alternative block isBlock => isBlock.emitsRule truly matcher

/-- Settings for a rule with host code on three lines, which end differently. -/
def scatteredCodeSettings : Settings where
  source := "G<c, i> A = 'é' ?(x) 'b'\r\n -> \x7b _IM_Next \x7d, (.\n ?(y) | 'c');"
  namespaceName? := some "N"

/-- The tree of the source of `scatteredCodeSettings`. -/
def scatteredCodeTree : Node :=
  .file ⟨0, ⟨0, 61⟩, {}⟩ []
    [.grammar ⟨1, ⟨0, 61⟩, {}⟩
      (.declaration ⟨2, ⟨0, 7⟩, {}⟩
        (.genericName ⟨3, ⟨0, 7⟩, {}⟩ (.code ⟨4, ⟨0, 1⟩, {}⟩)
          [.code ⟨5, ⟨2, 3⟩, {}⟩, .code ⟨6, ⟨5, 6⟩, {}⟩]) none)
      [.rule ⟨7, ⟨8, 61⟩, {}⟩ false (.code ⟨8, ⟨8, 9⟩, {}⟩) none
        (.sequence ⟨9, ⟨12, 60⟩, {}⟩
          [.action ⟨10, ⟨12, 43⟩, {}⟩
            (.sequence ⟨11, ⟨12, 25⟩, {}⟩
              [.condition ⟨12, ⟨12, 21⟩, {}⟩ (.literal ⟨13, ⟨12, 16⟩, {}⟩)
                (.code ⟨14, ⟨18, 21⟩, {}⟩),
                .literal ⟨15, ⟨22, 25⟩, {}⟩])
            (.code ⟨16, ⟨31, 43⟩, {}⟩),
            .sequence ⟨17, ⟨45, 60⟩, {}⟩
              [.choice ⟨18, ⟨46, 59⟩, {}⟩
                [.condition ⟨19, ⟨46, 53⟩, {}⟩ (.any ⟨20, ⟨46, 47⟩, {}⟩)
                  (.code ⟨21, ⟨50, 53⟩, {}⟩),
                  .literal ⟨22, ⟨56, 59⟩, {}⟩]]])]]

/-- The condition of the operand comes first, and only the action uses the match
result. -/
theorem embedded_code_scatteredCodeTree :
    scatteredCodeTree.RemembersNothing ∧
      ∃ text, compile scatteredCodeSettings scatteredCodeTree = .ok text ∧
        ∃ grammars analysis file,
          CompilesTo scatteredCodeSettings scatteredCodeTree text grammars analysis file ∧
          (∀ matcher ∈ file.classes, ∀ function ∈ matcher.functions,
            ∀ block ∈ function.blocks,
              .raw (block.combinator.text (matcher.surroundings scatteredCodeSettings.file)) ∈
                file.pieces) ∧
          List.Forall₂ (EmitsRules scatteredCodeSettings analysis) grammars file.classes ∧
          (file.classes.map fun matcher => matcher.functions.map fun function =>
            function.blocks.map fun block =>
              block.combinator.codes (matcher.surroundings scatteredCodeSettings.file)) =
            [[[[⟨.condition, false, 1, 18, "(x)"⟩, ⟨.action, true, 2, 5, "\x7b _IM_Next \x7d"⟩,
              ⟨.condition, false, 3, 3, "(y)"⟩]]]] := by
  have looked : ((analyze scatteredCodeSettings.source scatteredCodeTree).bind fun analysis =>
      Synthesis.parserFile scatteredCodeSettings analysis
        scatteredCodeTree.optimize).toOption.map
        (fun file => file.classes.map fun matcher => matcher.functions.map fun function =>
          function.blocks.map fun block =>
            block.combinator.codes (matcher.surroundings scatteredCodeSettings.file)) =
        some [[[[⟨.condition, false, 1, 18, "(x)"⟩, ⟨.action, true, 2, 5, "\x7b _IM_Next \x7d"⟩,
          ⟨.condition, false, 3, 3, "(y)"⟩]]]] := by
    decide +kernel
  obtain ⟨file, generated, _⟩ := exists_eq_ok_of_toOption_map looked
  obtain ⟨analysis, analyzed, succeeds⟩ := bind_eq_ok.mp generated
  have compiled : compile scatteredCodeSettings scatteredCodeTree = .ok file.text :=
    bind_eq_ok.mpr ⟨analysis, analyzed, map_eq_ok.mpr ⟨file, succeeds, rfl⟩⟩
  have nothing : scatteredCodeTree.RemembersNothing := by decide
  obtain ⟨grammars, analysis, file, compiles, arePieces, emitted⟩ :=
    embedded_code_is_mapped_back nothing compiled
  refine ⟨nothing, _, compiled, grammars, analysis, file, compiles, arePieces, emitted, ?_⟩
  rw [compiles.analyzed, Except.bind, compiles.generated] at looked
  exact Option.some.inj looked

end GrammarCompiler
