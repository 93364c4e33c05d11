import GrammarCompiler.Proofs.EmbeddedCode

/-!
# What an action returns

The lambda of an action runs the code of the action and, unless the letters of
`return` occur in the code, a statement after it that returns a default result.  The
lambda returns by one or the other, except where these letters occur in longer words
only.
-/

namespace GrammarCompiler

/-! ## Words -/

namespace Text

/-- A word stands in some characters by itself: what is next to it belongs to no
word. -/
def HasWord (inWord : Char → Bool) (word chars : List Char) : Prop :=
  ∃ before after, chars = before ++ word ++ after ∧
    (∀ c ∈ before.getLast?, inWord c = false) ∧ ∀ c ∈ after.head?, inWord c = false

section

variable {inWord : Char → Bool} {word : List Char}

theorem HasWord.isInfix
    {chars : List Char}
    (hasWord : HasWord inWord word chars) :
    word <:+: chars := by
  obtain ⟨before, after, split, -⟩ := hasWord
  exact ⟨before, after, split.symm⟩

theorem hasWord_self : HasWord inWord word word :=
  ⟨[], [], (List.append_nil _).symm, nofun, nofun⟩

/-- A character that belongs to no word separates the words on its sides. -/
theorem hasWord_append_cons_iff
    {separator : Char}
    (separates : inWord separator = false)
    (notInside : separator ∉ word)
    {left right : List Char} :
    HasWord inWord word (left ++ separator :: right) ↔
      HasWord inWord word left ∨ HasWord inWord word right := by
  constructor
  · rintro ⟨before, after, split, freeBefore, freeAfter⟩
    rcases List.append_eq_append_iff.mp split with ⟨rest, upToWord, ofRight⟩ | ⟨rest, rfl, rfl⟩
    · cases rest with
      | nil => exact .inl ⟨before, [], by simpa using upToWord.symm, freeBefore, nofun⟩
      | cons c rest =>
          obtain ⟨rfl, rfl⟩ := List.cons.inj ofRight
          rcases List.append_eq_append_iff.mp upToWord with ⟨_, _, isWord⟩ | ⟨start, rfl, isWord⟩
          · exact absurd (isWord ▸ List.mem_append_right _ List.mem_cons_self) notInside
          · cases start with
            | nil =>
                cases (isWord : separator :: rest = word)
                exact absurd List.mem_cons_self notInside
            | cons d start =>
                obtain ⟨rfl, rfl⟩ := List.cons.inj isWord
                refine .inr ⟨start, after, rfl, fun last isLast => freeBefore last ?_, freeAfter⟩
                rw [List.getLast?_append, List.getLast?_cons, isLast]
                rfl
    · refine .inl ⟨before, rest, rfl, freeBefore, fun first isFirst => freeAfter first ?_⟩
      rw [List.head?_append, isFirst]
      rfl
  · rintro (⟨before, after, rfl, freeBefore, freeAfter⟩ |
      ⟨before, after, rfl, freeBefore, freeAfter⟩)
    · refine ⟨before, after ++ separator :: right, by simp, freeBefore, ?_⟩
      cases after with
      | nil => simpa using separates
      | cons c after => simpa using freeAfter
    · refine ⟨left ++ separator :: before, after, by simp, ?_, freeAfter⟩
      cases before with
      | nil => simpa using separates
      | cons c before => simpa [List.getLast?_append, List.getLast?_cons] using freeBefore

/-- Whether a word stands by itself at one of the places of some characters. -/
def holdsWord (inWord : Char → Bool) (word chars : List Char) : Bool :=
  (List.range (chars.length + 1)).any fun place =>
    word.isPrefixOf (chars.drop place) &&
      (chars.take place).getLast?.all (!inWord ·) &&
      ((chars.drop place).drop word.length).head?.all (!inWord ·)

theorem holdsWord_iff
    {chars : List Char} :
    holdsWord inWord word chars = true ↔ HasWord inWord word chars := by
  simp only [holdsWord, List.any_eq_true, Bool.and_eq_true, List.isPrefixOf_iff_prefix,
    Option.all_eq_true, Bool.not_eq_true']
  constructor
  · rintro ⟨place, -, ⟨starts, freeBefore⟩, freeAfter⟩
    refine ⟨_, _, ?_, freeBefore, freeAfter⟩
    rw [List.append_assoc, List.prefix_iff_eq_append.mp starts, List.take_append_drop]
  · rintro ⟨before, after, rfl, freeBefore, freeAfter⟩
    rw [List.append_assoc]
    refine ⟨before.length, ?_, ⟨?_, ?_⟩, ?_⟩
    · simp only [List.mem_range, List.length_append]
      omega
    · rw [List.drop_left]
      exact List.prefix_append word after
    · rwa [List.take_left]
    · rwa [List.drop_left, List.drop_left]

instance (chars : List Char) : Decidable (HasWord inWord word chars) :=
  decidable_of_iff _ holdsWord_iff

end

end Text

/-! ## The lambda of an action -/

namespace HostCode

/-- The statement after the block of an action. -/
def defaultResult (resultType : String) (block : HostCode) : String :=
  if block.returns then "" else " return default(" ++ resultType ++ ");"

/-- What the lambda of an action runs: the code, up to the end of its block, and the
statement after it. -/
def statements (resultType : String) (block : HostCode) : String :=
  block.text ++ "\n#line default\n" ++ "\x7d" ++ block.defaultResult resultType

theorem returns_eq_true_iff
    {block : HostCode} :
    block.returns = true ↔ "return".toList <:+: block.text.toList :=
  Text.contains_iff

/-- What becomes of an action.  The letters of `return` decide whether a default
result is returned after the code. -/
structure RunsAsAction
    (inWord : Char → Bool)
    (surroundings : Surroundings)
    (block : HostCode) : Prop where
  /-- The code comes after a blank. -/
  lambda : ∃ opening, Combinator.actionText surroundings block =
      opening ++ block.statements surroundings.resultType ++ "\x7d)" ∧
    ∀ c ∈ opening.toList.getLast?, Text.isBlank c = true
  appended : block.defaultResult surroundings.resultType =
      " return default(" ++ surroundings.resultType ++ ");" ↔
    ¬"return".toList <:+: block.text.toList
  /-- The lambda returns except where the letters occur in longer words only. -/
  returns : Text.HasWord inWord "return".toList
      (block.statements surroundings.resultType).toList ↔
    Text.HasWord inWord "return".toList block.text.toList ∨
      ¬"return".toList <:+: block.text.toList

section

variable {inWord : Char → Bool} (blanksSeparate : ∀ c, Text.isBlank c = true → inWord c = false)

include blanksSeparate in
theorem hasWord_statements_iff
    (resultType : String)
    (block : HostCode) :
    Text.HasWord inWord "return".toList (block.statements resultType).toList ↔
      Text.HasWord inWord "return".toList block.text.toList ∨
        ¬"return".toList <:+: block.text.toList := by
  have ofLine := blanksSeparate '\n' (by decide)
  have ofSpace := blanksSeparate ' ' (by decide)
  have noLine : '\n' ∉ "return".toList := by decide
  have noSpace : ' ' ∉ "return".toList := by decide
  rw [← returns_eq_true_iff, statements, defaultResult]
  by_cases letters : block.returns = true
  · have directive : ¬Text.HasWord inWord "return".toList "#line default\n\x7d".toList :=
      fun hasWord => absurd (hasWord.isInfix.subset (a := 'r') (by decide)) (by decide)
    have split : (block.text ++ "\n#line default\n" ++ "\x7d" ++ "").toList =
        block.text.toList ++ '\n' :: "#line default\n\x7d".toList := by
      simp [String.toList_append]
    rw [if_pos letters, split, Text.hasWord_append_cons_iff ofLine noLine]
    simp only [directive, letters, not_true]
  · have split : (block.text ++ "\n#line default\n" ++ "\x7d" ++
          (" return default(" ++ resultType ++ ");")).toList =
        block.text.toList ++ '\n' :: ("#line default\n\x7d".toList ++
          ' ' :: ("return".toList ++ ' ' :: ("default(" ++ resultType ++ ");").toList)) := by
      simp [String.toList_append]
    rw [if_neg letters, split, Text.hasWord_append_cons_iff ofLine noLine,
      Text.hasWord_append_cons_iff ofSpace noSpace, Text.hasWord_append_cons_iff ofSpace noSpace]
    simp only [Text.hasWord_self, letters, Bool.false_eq_true, true_or, or_true, not_false_iff]

/-- The code of an action is moved to its column on a line of its own. -/
theorem isBlank_of_mem_getLast?_append_spaces
    (text : String)
    (count : Nat) :
    ∀ c ∈ (text ++ "\"\n" ++ Text.spaces count).toList.getLast?, Text.isBlank c = true := by
  have newline : Text.isBlank '\n' = true := by decide
  have space : Text.isBlank ' ' = true := by decide
  rw [String.toList_append, Text.spaces, String.toList_ofList]
  cases count with
  | zero => simp [List.getLast?_append, newline]
  | succ count =>
      rw [List.replicate_succ', ← List.append_assoc, List.getLast?_concat]
      simp [space]

include blanksSeparate in
theorem runsAsAction (surroundings : Surroundings) (block : HostCode) :
    block.RunsAsAction inWord surroundings where
  lambda := by
    refine ⟨", (_IM_Result_MI_) => \x7b\x7b " ++ block.resultDeclarations surroundings.itemClass ++
      "\n#line " ++ block.line.repr ++ " \"" ++ surroundings.file ++ "\"\n" ++
      Text.spaces (block.column - 1), ?_, isBlank_of_mem_getLast?_append_spaces _ _⟩
    unfold Combinator.actionText mapped statements defaultResult
    simp only [String.append_assoc]
  appended := by
    rw [← returns_eq_true_iff, defaultResult]
    split
    · next letters => simp [letters, ← String.toList_inj]
    · next noLetters => simp [noLetters]
  returns := hasWord_statements_iff blanksSeparate surroundings.resultType block

end

end HostCode

/-! ## The actions of an expression -/

namespace Segment

/-- The code of an action is followed by the end of its lambda. -/
def EndsActions (resultType : String) (segments : List Segment) : Prop :=
  ∀ before code after, segments = before ++ .embedded code :: after → code.role = .action →
    ∃ block : HostCode, code = block.embedded .action ∧
      Combinator.actionEnding resultType block <+: after

section

variable {resultType : String}

theorem EndsActions.append
    {left right : List Segment}
    (ofLeft : EndsActions resultType left)
    (ofRight : EndsActions resultType right) :
    EndsActions resultType (left ++ right) := by
  intro before code after split isAction
  rcases List.append_eq_append_iff.mp split with ⟨start, rfl, isRight⟩ | ⟨rest, isLeft, isAfter⟩
  · exact ofRight start code after isRight isAction
  · cases rest with
    | nil => exact ofRight [] code after isAfter.symm isAction
    | cons segment rest =>
        obtain ⟨rfl, rfl⟩ := List.cons.inj isAfter
        obtain ⟨block, isBlock, isEnd⟩ := ofLeft before code rest isLeft isAction
        exact ⟨block, isBlock, isEnd.trans (List.prefix_append _ _)⟩

/-- Where nothing is embedded, there are no actions. -/
theorem endsActions_of_codes_eq_nil
    {segments : List Segment}
    (nothing : codes segments = []) :
    EndsActions resultType segments := by
  intro before code after split _
  rw [split, codes_append, codes_embedded, List.append_eq_nil_iff] at nothing
  exact absurd nothing.2 (List.cons_ne_nil _ _)

/-- The end of the lambda of an action follows its code. -/
theorem endsActions_embedded_cons
    {code : EmbeddedCode}
    {segments : List Segment}
    (nothing : codes segments = [])
    (ofAction : code.role = .action → ∃ block : HostCode, code = block.embedded .action ∧
      Combinator.actionEnding resultType block <+: segments) :
    EndsActions resultType (.embedded code :: segments) := by
  intro before other after split isAction
  cases before with
  | nil =>
      obtain ⟨isCode, rfl⟩ := List.cons.inj split
      cases isCode
      exact ofAction isAction
  | cons segment before =>
      obtain ⟨-, further⟩ := List.cons.inj split
      exact endsActions_of_codes_eq_nil nothing before other after further isAction

theorem endsActions_separated
    {members : List (List Segment)}
    (each : ∀ segments ∈ members, EndsActions resultType segments) :
    EndsActions resultType (separated members) := by
  fun_induction separated members with
  | case1 => exact endsActions_of_codes_eq_nil rfl
  | case2 segments => exact each segments List.mem_cons_self
  | case3 segments members several inductionHypothesis =>
      obtain ⟨first, others⟩ := List.forall_mem_cons.mp each
      have comma : EndsActions resultType [.words ", "] := endsActions_of_codes_eq_nil rfl
      exact first.append (comma.append (inductionHypothesis others))

end

end Segment

/-- Every action of a combinator ends its lambda after its code. -/
theorem Combinator.endsActions_segments
    (surroundings : Surroundings)
    (combinator : Combinator) :
    Segment.EndsActions surroundings.resultType (combinator.segments surroundings) := by
  have words {segments : List Segment} (nothing : Segment.codes segments = []) :
      Segment.EndsActions surroundings.resultType segments :=
    Segment.endsActions_of_codes_eq_nil nothing
  induction combinator with
  | unary operator operand ofOperand =>
      exact ((words rfl).append ofOperand).append (words rfl)
  | capture operand name ofOperand =>
      exact ((words rfl).append ofOperand).append (words rfl)
  | condition operand test ofOperand =>
      have ofTest : Segment.EndsActions surroundings.resultType
          [.embedded (test.embedded .condition), .words ");\x7d)"] :=
        Segment.endsActions_embedded_cons rfl nofun
      exact ((words rfl).append ofOperand).append ofTest
  | action operand block ofOperand =>
      have ofBlock : Segment.EndsActions surroundings.resultType
          (.embedded (block.embedded .action) :: actionEnding surroundings.resultType block) := by
        refine Segment.endsActions_embedded_cons ?_ fun _ => ⟨block, rfl, List.prefix_refl _⟩
        rw [actionEnding]
        split <;> rfl
      exact ((words rfl).append ofOperand).append ofBlock
  | sequence members ofMembers
  | choice members ofMembers =>
      rw [segments, segmentsAll_eq_map]
      exact ((words rfl).append (Segment.endsActions_separated
        (List.forall_mem_map.mpr ofMembers))).append (words rfl)
  | parameters params body ofParams ofBody =>
      exact ((((words rfl).append ofParams).append (words rfl)).append ofBody).append (words rfl)
  | call target arguments =>
      exact words (codes_call surroundings target arguments)
  | _ => exact words rfl

/-- The actions of a rule in an emitted expression. -/
structure Node.EmitsActions
    (source : String)
    (inWord : Char → Bool)
    (surroundings : Surroundings)
    (rule : Node)
    (combinator : Combinator) : Prop where
  /-- The conditions and actions of the rule are those that are emitted. -/
  codes : List.Forall₂ (Embedding.IsReadAs source) rule.ruleEmbeddings
    (Segment.codes (combinator.segments surroundings))
  /-- The lambda of each action stands where its code is embedded. -/
  lambdas : ∀ before code after,
    combinator.segments surroundings = before ++ .embedded code :: after → code.role = .action →
      ∃ block : HostCode, code = block.embedded .action ∧ block.RunsAsAction inWord surroundings ∧
        ∃ rest, combinator.text surroundings =
          Segment.render surroundings before ++ Combinator.actionText surroundings block ++ rest

theorem Synthesis.emitsActions
    {source : String}
    {analysis : Analysis}
    {inWord : Char → Bool}
    (blanksSeparate : ∀ c, Text.isBlank c = true → inWord c = false)
    (surroundings : Surroundings)
    {rule : Node}
    (isRule : rule.kind = .rule)
    {result : Combinator}
    (succeeds : ruleCombinator source analysis rule.ruleNode = .ok result) :
    rule.EmitsActions source inWord surroundings result where
  codes := forall₂_isReadAs_of_ruleCombinator surroundings isRule succeeds
  lambdas before code after split isAction := by
    obtain ⟨block, rfl, rest, rfl⟩ :=
      result.endsActions_segments surroundings before code after split isAction
    refine ⟨block, rfl, HostCode.runsAsAction blanksSeparate surroundings block,
      Segment.render surroundings rest, ?_⟩
    rw [← Combinator.render_segments, split, Segment.render_append, Segment.render_cons,
      Segment.render_append, Combinator.actionText_eq]
    simp only [String.append_assoc]

/-- A block emits the actions of its rule as it was before flattening. -/
theorem Synthesis.IsBlockOf.exists_emitsActions
    {source : String}
    {analysis : Analysis}
    {node : Node}
    {alternative : Alternative}
    {block : DefinitionBlock}
    (isBlock : IsBlockOf source analysis (ruleNodes node.optimize) alternative block)
    {inWord : Char → Bool}
    (blanksSeparate : ∀ c, Text.isBlank c = true → inWord c = false)
    (surroundings : Surroundings) :
    ∃ rule, node.ReachesRule rule ∧ rule.id = alternative.ruleId ∧
      rule.EmitsActions source inWord surroundings block.combinator := by
  obtain ⟨_, found, emitted⟩ := isBlock.combinator
  obtain ⟨rule, flattened, reached, hasNumber, flattens, reached', rfl⟩ :=
    exists_rule_of_ruleNode? found
  have emits := emitsActions blanksSeparate surroundings reached'.kind_eq emitted
  refine ⟨rule, reached, hasNumber, ?_, emits.lambdas⟩
  rw [← flattens.ruleEmbeddings_eq]
  exact emits.codes

/-- The lambda of every action that is emitted returns, by its code or by the default
result after it, except where the letters of `return` occur in longer words of the
code only. -/
theorem actions_return_unless_hidden
    {settings : Settings}
    {tree : Node}
    {text : String}
    (compiled : compile settings tree = .ok text)
    {inWord : Char → Bool}
    (blanksSeparate : ∀ c, Text.isBlank c = true → inWord c = false) :
    ∃ grammars analysis file, CompilesTo settings tree text grammars analysis file ∧
      ∀ matcher ∈ file.classes, ∀ function ∈ matcher.functions, ∀ block ∈ function.blocks,
        .raw (block.combinator.text (matcher.surroundings settings.file)) ∈ file.pieces ∧
        ∃ node ∈ grammars, ∃ rule, node.ReachesRule rule ∧
          rule.EmitsActions settings.source inWord (matcher.surroundings settings.file)
            block.combinator := by
  obtain ⟨grammars, analysis, file, compiles⟩ := exists_compilesTo compiled
  refine ⟨grammars, analysis, file, compiles, ?_⟩
  intro matcher isClass function isFunction block isBlock
  refine ⟨?_, ?_⟩
  · rw [← (Synthesis.grammarFile_and_imports_of_parserFile compiles.generated).1]
    exact ParserFile.raw_mem_pieces isClass isFunction isBlock
  · obtain ⟨node, isGrammar, becomes⟩ := exists_partner compiles.classes.flip isClass
    obtain ⟨_, _, _, functions⟩ := Synthesis.matcherClass_eq_ok becomes
    obtain ⟨_, _, ofSet⟩ := exists_partner functions.flip isFunction
    obtain ⟨_, _, ofAlternative⟩ := exists_partner ofSet.blocks.flip isBlock
    obtain ⟨rule, reached, _, emits⟩ :=
      ofAlternative.exists_emitsActions blanksSeparate (matcher.surroundings settings.file)
    exact ⟨node, isGrammar, rule, reached, emits⟩

/-- Settings for a rule with an action that does not return. -/
def hiddenReturnSettings : Settings where
  source := "G<c, i> A = 'a' -> \x7b returned++; \x7d;"
  namespaceName? := some "N"

/-- The tree of the source of `hiddenReturnSettings`. -/
def hiddenReturnTree : Node :=
  .file ⟨0, ⟨0, 35⟩, {}⟩ []
    [.grammar ⟨1, ⟨0, 35⟩, {}⟩
      (.declaration ⟨2, ⟨0, 7⟩, {}⟩
        (.genericName ⟨3, ⟨0, 7⟩, {}⟩ (.code ⟨4, ⟨0, 1⟩, {}⟩)
          [.code ⟨5, ⟨2, 3⟩, {}⟩, .code ⟨6, ⟨5, 6⟩, {}⟩]) none)
      [.rule ⟨7, ⟨8, 35⟩, {}⟩ false (.code ⟨8, ⟨8, 9⟩, {}⟩) none
        (.action ⟨9, ⟨12, 34⟩, {}⟩ (.literal ⟨10, ⟨12, 15⟩, {}⟩) (.code ⟨11, ⟨21, 32⟩, {}⟩))]]

/-- A letter, a digit or an underscore. -/
def isNamePart (c : Char) : Bool :=
  ('a' ≤ c && c ≤ 'z') || ('A' ≤ c && c ≤ 'Z') || ('0' ≤ c && c ≤ '9') || c == '_'

theorem isNamePart_eq_false_of_isBlank
    (c : Char)
    (blank : Text.isBlank c = true) :
    isNamePart c = false := by
  simp only [Text.isBlank, Bool.or_eq_true, Bool.and_eq_true, decide_eq_true_eq, beq_iff_eq,
    UInt32.le_iff_toNat_le, ← UInt32.toNat_inj] at blank
  simp [isNamePart, Char.le_def, Char.ext_iff, UInt32.le_iff_toNat_le, ← UInt32.toNat_inj]
    at blank ⊢
  omega

/-- The file has one expression, with the action in it. -/
theorem exists_compilesTo_hiddenReturnTree :
    ∃ text grammars analysis file,
      compile hiddenReturnSettings hiddenReturnTree = .ok text ∧
      CompilesTo hiddenReturnSettings hiddenReturnTree text grammars analysis file ∧
      (file.classes.map fun matcher => matcher.functions.map fun function =>
        function.blocks.map fun block =>
          (block.combinator.codes (matcher.surroundings hiddenReturnSettings.file),
            block.combinator.text (matcher.surroundings hiddenReturnSettings.file))) =
        [[[([⟨.action, false, 1, 22, "returned++;"⟩],
          "_ACTION(_LITERAL('a'), (_IM_Result_MI_) => \x7b\x7b \n#line 1 \"g.ironmeta\"\n" ++
            "                     returned++;\n#line default\n\x7d\x7d)")]]] := by
  exact exists_compilesTo_of_view (by decide +kernel)

theorem actions_return_unless_hidden_hiddenReturnTree :
    (∀ c, Text.isBlank c = true → isNamePart c = false) ∧
      ∃ text, compile hiddenReturnSettings hiddenReturnTree = .ok text ∧
        ∃ grammars analysis file,
          CompilesTo hiddenReturnSettings hiddenReturnTree text grammars analysis file ∧
          ∀ matcher ∈ file.classes, ∀ function ∈ matcher.functions, ∀ block ∈ function.blocks,
            .raw (block.combinator.text (matcher.surroundings hiddenReturnSettings.file)) ∈
                file.pieces ∧
              ∃ node ∈ grammars, ∃ rule, node.ReachesRule rule ∧
                rule.EmitsActions hiddenReturnSettings.source isNamePart
                  (matcher.surroundings hiddenReturnSettings.file) block.combinator := by
  obtain ⟨text, _, _, _, compiled, _⟩ := exists_compilesTo_hiddenReturnTree
  exact ⟨isNamePart_eq_false_of_isBlank, text, compiled,
    actions_return_unless_hidden compiled isNamePart_eq_false_of_isBlank⟩

/-- The letters of `return` in `returned` keep the default result away. -/
theorem action_does_not_return :
    ∃ text grammars analysis file,
      compile hiddenReturnSettings hiddenReturnTree = .ok text ∧
      CompilesTo hiddenReturnSettings hiddenReturnTree text grammars analysis file ∧
      ∃ matcher ∈ file.classes, ∃ function ∈ matcher.functions, ∃ block ∈ function.blocks,
        ∃ code ∈ block.combinator.codes (matcher.surroundings hiddenReturnSettings.file),
          code.role = .action ∧ code.text = "returned++;" ∧
          ¬Text.HasWord isNamePart "return".toList code.text.toList ∧
          ¬Text.HasWord isNamePart "return".toList
            (block.combinator.text (matcher.surroundings hiddenReturnSettings.file)).toList := by
  obtain ⟨text, grammars, analysis, file, compiled, compiles, expressions⟩ :=
    exists_compilesTo_hiddenReturnTree
  refine ⟨text, grammars, analysis, file, compiled, compiles, ?_⟩
  obtain ⟨matcher, classes, functions⟩ := List.map_eq_singleton_iff.mp expressions
  obtain ⟨function, isFunctions, blocks⟩ := List.map_eq_singleton_iff.mp functions
  obtain ⟨block, isBlocks, expression⟩ := List.map_eq_singleton_iff.mp blocks
  obtain ⟨codes, isText⟩ := Prod.mk.inj expression
  refine ⟨matcher, classes ▸ List.mem_cons_self, function, isFunctions ▸ List.mem_cons_self,
    block, isBlocks ▸ List.mem_cons_self, _, codes ▸ List.mem_cons_self, rfl, rfl, ?_, ?_⟩
  · decide +kernel
  · rw [isText, String.toList_append, String.toList_ofList, String.toList_ofList]
    decide +kernel

end GrammarCompiler
