import GrammarCompiler.Proofs.BracketWords
import GrammarCompiler.Proofs.EmittedSegments
import GrammarCompiler.Proofs.GeneratedRules

/-!
# Generated files are correctly nested

A generated file is made of templates into which fragments are copied: names, types,
texts of the preamble and what the segments of combinators copy.  If every fragment is
correctly nested, the file is.  A nested text can be skipped wherever it stands, so
what is left of a template are the words of the generator, which the scanner reads.
-/

namespace GrammarCompiler

open Brackets
open Text (IsNested)

/-! ## Numbers and blanks -/

namespace Text

theorem isPlain_of_isDigit
    {c : Char}
    (isDigit : c.isDigit = true) :
    IsPlain c := by
  intro bracket
  constructor
  · rintro rfl
    cases bracket <;> cases isDigit
  · rintro rfl
    cases bracket <;> cases isDigit

theorem isNested_repr (number : Nat) : IsNested number.repr := by
  refine isNested_of_isPlain fun c member => isPlain_of_isDigit ?_
  rw [Nat.toList_repr] at member
  exact Nat.isDigit_of_mem_toDigits (by decide) (by decide) member

theorem isNested_replicate
    {c : Char}
    (isPlain : IsPlain c)
    (count : Nat) :
    IsNested (String.ofList (List.replicate count c)) := by
  refine isNested_of_isPlain fun other member => ?_
  rw [String.toList_ofList] at member
  rw [List.eq_of_mem_replicate member]
  exact isPlain

theorem isNested_spaces (count : Nat) : IsNested (spaces count) :=
  isNested_replicate (fun bracket => by cases bracket <;> decide) count

end Text

namespace Timestamp

theorem isNested_padded (width value : Nat) : IsNested (padded width value) := by
  have isPlain : IsPlain '0' := Text.isPlain_of_isDigit (by decide)
  exact (Text.isNested_replicate isPlain _).append (Text.isNested_repr value)

theorem isNested_text (seconds : Int) : IsNested (text seconds) := by
  have ofYear (year : Int) : IsNested (yearText year) := by
    unfold yearText
    split
    · exact isNested_padded 4 _
    · refine Text.IsNested.append ?_ (isNested_padded 4 _)
      split <;> decide
  unfold text
  rw [Text.isNested_iff]
  simp only [scanFrom_append, (ofYear _).scanFrom_eq, (isNested_padded _ _).scanFrom_eq]
  repeat rw [scanFrom_ofList]
  decide

end Timestamp

/-! ## Pieces -/

namespace Layout

theorem render_append (left right : List Piece) :
    render (left ++ right) = render left ++ render right := by
  rw [render, List.map_append, Text.concat_append]
  rfl

section

variable (state : Option Stack)

theorem scanFrom_render_nil : scanFrom state (render []) = state :=
  Text.isNested_empty.scanFrom_eq state

theorem scanFrom_render_append (left right : List Piece) :
    scanFrom state (render (left ++ right)) =
      scanFrom (scanFrom state (render left)) (render right) := by
  rw [render_append, scanFrom_append]

theorem scanFrom_render_raw (text : String) (pieces : List Piece) :
    scanFrom state (render (.raw text :: pieces)) =
      scanFrom (scanFrom state text) (render pieces) :=
  scanFrom_append state text (render pieces)

/-- Indentation can be skipped. -/
theorem scanFrom_render_indented (level : Nat) (text : String) (pieces : List Piece) :
    scanFrom state (render (.indented level text :: pieces)) =
      scanFrom (scanFrom state text) (render pieces) := by
  change scanFrom state (Text.spaces (4 * level) ++ text ++ render pieces) = _
  rw [scanFrom_append, scanFrom_append, (Text.isNested_spaces _).scanFrom_eq]

theorem scanFrom_render_newline (pieces : List Piece) :
    scanFrom state (render (.newline :: pieces)) = scanFrom state (render pieces) := by
  have ofNewline : IsNested "\n" := by decide
  change scanFrom state ("\n" ++ render pieces) = _
  rw [scanFrom_append, ofNewline.scanFrom_eq]

end

theorem isNested_render_flatMap
    {members : List α}
    {pieces : α → List Piece}
    (each : ∀ member ∈ members, IsNested (render (pieces member))) :
    IsNested (render (members.flatMap pieces)) := by
  induction members with
  | nil => exact Text.isNested_empty
  | cons member members inductionHypothesis =>
      obtain ⟨first, others⟩ := List.forall_mem_cons.mp each
      rw [List.flatMap_cons, render_append]
      exact first.append (inductionHypothesis others)

end Layout

/-! ## Combinators -/

namespace EmbeddedCode

theorem isNested_resultDeclarations
    {itemClass : String}
    (ofItemClass : IsNested itemClass) :
    IsNested (resultDeclarations itemClass) := by
  unfold resultDeclarations
  rw [Text.isNested_iff]
  simp only [scanFrom_append, ofItemClass.scanFrom_eq]
  repeat rw [scanFrom_ofList]
  decide

theorem isNested_mapped
    {file : String}
    {code : EmbeddedCode}
    (ofFile : IsNested file)
    (ofText : IsNested code.text) :
    IsNested (code.mapped file) := by
  unfold mapped
  rw [Text.isNested_iff]
  simp only [scanFrom_append, (Text.isNested_repr _).scanFrom_eq, ofFile.scanFrom_eq,
    (Text.isNested_spaces _).scanFrom_eq, ofText.scanFrom_eq]
  repeat rw [scanFrom_ofList]
  decide

end EmbeddedCode

namespace Segment

/-- The fragments that a segment brings into a file. -/
def fragments (surroundings : Surroundings) : Segment → List String
  | .words _ => []
  | .copied text => [text]
  | .embedded code =>
      (if code.declaresResult then [surroundings.itemClass] else []) ++
        [surroundings.file, code.text]

/-- The words that open the lambda of host code. -/
def lambdaWords : CodeRole → String
  | .condition => ", (_IM_Result_MI_) => \x7b " ++ "return ("
  | .action => ", (_IM_Result_MI_) => \x7b\x7b "

/-- The words of a segment that are left without its fragments. -/
def skeleton : Segment → String
  | .words text => text
  | .copied _ => ""
  | .embedded code => lambdaWords code.role

/-- The words of some segments that are left without their fragments. -/
def skeletons (segments : List Segment) : String :=
  Text.concat (segments.map skeleton)

theorem skeletons_append (left right : List Segment) :
    skeletons (left ++ right) = skeletons left ++ skeletons right := by
  rw [skeletons, List.map_append, Text.concat_append]
  rfl

theorem skeletons_words (text : String) (segments : List Segment) :
    skeletons (.words text :: segments) = text ++ skeletons segments := rfl

theorem skeletons_copied (text : String) (segments : List Segment) :
    skeletons (.copied text :: segments) = skeletons segments :=
  String.empty_append

theorem skeletons_condition (test : HostCode) (segments : List Segment) :
    skeletons (.embedded (test.embedded .condition) :: segments) =
      ", (_IM_Result_MI_) => \x7b " ++ "return (" ++ skeletons segments := rfl

theorem skeletons_action (block : HostCode) (segments : List Segment) :
    skeletons (.embedded (block.embedded .action) :: segments) =
      ", (_IM_Result_MI_) => \x7b\x7b " ++ skeletons segments := rfl

theorem scanFrom_skeletons_nil (state : Option Stack) : scanFrom state (skeletons []) = state :=
  Text.isNested_empty.scanFrom_eq state

theorem isNested_skeletons_separated
    {members : List (List Segment)}
    (each : ∀ segments ∈ members, IsNested (skeletons segments)) :
    IsNested (skeletons (separated members)) := by
  fun_induction separated members with
  | case1 => exact Text.isNested_empty
  | case2 segments => exact each segments List.mem_cons_self
  | case3 segments members several inductionHypothesis =>
      obtain ⟨ofFirst, ofOthers⟩ := List.forall_mem_cons.mp each
      have ofComma : IsNested ", " := by decide
      rw [skeletons_append, skeletons_words]
      exact ofFirst.append (ofComma.append (inductionHypothesis ofOthers))

variable {surroundings : Surroundings}

/-- Of host code, only the words that open its lambda are not nested. -/
theorem scanFrom_embedded
    {code : EmbeddedCode}
    (copies : ∀ fragment ∈ (embedded code).fragments surroundings, IsNested fragment)
    (state : Option Stack) :
    scanFrom state ((embedded code).text surroundings) =
      scanFrom state (lambdaWords code.role) := by
  obtain ⟨ofItemClass, ofCode⟩ := List.forall_mem_append.mp copies
  obtain ⟨ofFile, ofText⟩ := List.forall_mem_cons.mp ofCode
  have ofMapped := EmbeddedCode.isNested_mapped ofFile (ofText code.text List.mem_cons_self)
  have ofDeclarations : IsNested
      (if code.declaresResult then EmbeddedCode.resultDeclarations surroundings.itemClass
        else "") := by
    split
    · next declares =>
        exact EmbeddedCode.isNested_resultDeclarations (ofItemClass _ (by simp [declares]))
    · exact Text.isNested_empty
  have ofNewline : IsNested "\n" := by decide
  rw [text_embedded, scanFrom_append, scanFrom_append, ofNewline.scanFrom_eq,
    ofMapped.scanFrom_eq]
  unfold EmbeddedCode.opening lambdaWords
  cases code.role <;> simp only [scanFrom_append, ofDeclarations.scanFrom_eq]

theorem scanFrom_text
    {segment : Segment}
    (copies : ∀ fragment ∈ segment.fragments surroundings, IsNested fragment)
    (state : Option Stack) :
    scanFrom state (segment.text surroundings) = scanFrom state segment.skeleton := by
  cases segment with
  | words text => rfl
  | copied text =>
      have ofText := copies text List.mem_cons_self
      rw [text_copied, skeleton, ofText.scanFrom_eq, Text.isNested_empty.scanFrom_eq]
  | embedded code => exact scanFrom_embedded copies state

/-- Nested fragments can be skipped. -/
theorem scanFrom_render
    {segments : List Segment}
    (copies : ∀ fragment ∈ segments.flatMap (fragments surroundings), IsNested fragment)
    (state : Option Stack) :
    scanFrom state (render surroundings segments) = scanFrom state (skeletons segments) := by
  induction segments generalizing state with
  | nil => rfl
  | cons segment segments inductionHypothesis =>
      obtain ⟨ofFirst, ofOthers⟩ := List.forall_mem_append.mp copies
      rw [render_cons, scanFrom_append, scanFrom_text ofFirst, inductionHypothesis ofOthers]
      exact (scanFrom_append _ _ _).symm

end Segment

namespace Combinator

open Segment

theorem isNested_skeletons_callSegments (target : String) (arguments : List CallArgument) :
    IsNested (skeletons (callSegments target arguments)) := by
  have ofArgument (argument : CallArgument) : IsNested (skeletons argument.segments) := by
    rw [Text.isNested_iff]
    cases argument <;>
      simp only [CallArgument.segments, skeletons_words, skeletons_copied, scanFrom_append,
        scanFrom_skeletons_nil] <;>
      repeat rw [scanFrom_ofList]
    all_goals decide
  have ofArguments := isNested_skeletons_separated
    (List.forall_mem_map.mpr fun argument (_ : argument ∈ arguments) => ofArgument argument)
  rw [Text.isNested_iff]
  unfold callSegments
  split <;>
    simp only [skeletons_append, skeletons_words, skeletons_copied, scanFrom_append,
      scanFrom_skeletons_nil, ofArguments.scanFrom_eq] <;>
    repeat rw [scanFrom_ofList]
  all_goals decide

/-- The generator nests its words. -/
theorem isNested_skeletons_segments (surroundings : Surroundings) (combinator : Combinator) :
    IsNested (skeletons (combinator.segments surroundings)) := by
  induction combinator with
  | call target arguments =>
      rw [segments]
      exact isNested_skeletons_callSegments target arguments
  | any | literal text | reference text | fail text =>
      rw [Text.isNested_iff]
      simp only [segments, skeletons_words, skeletons_copied, scanFrom_append,
        scanFrom_skeletons_nil]
      repeat rw [scanFrom_ofList]
      decide
  | unary operator operand ofOperand =>
      have ofOperator : IsNested operator.combinator := by cases operator <;> decide
      rw [Text.isNested_iff]
      simp only [segments, skeletons_append, skeletons_words, scanFrom_append,
        scanFrom_skeletons_nil, ofOperator.scanFrom_eq, ofOperand.scanFrom_eq]
      repeat rw [scanFrom_ofList]
      decide
  | capture operand other ofOperand | condition operand other ofOperand =>
      rw [Text.isNested_iff]
      simp only [segments, skeletons_append, skeletons_words, skeletons_copied,
        skeletons_condition, scanFrom_append, scanFrom_skeletons_nil, ofOperand.scanFrom_eq]
      repeat rw [scanFrom_ofList]
      decide
  | action operand block ofOperand =>
      rw [Text.isNested_iff, segments]
      unfold actionEnding
      split <;>
        simp only [skeletons_append, skeletons_words, skeletons_copied, skeletons_action,
          scanFrom_append, scanFrom_skeletons_nil, ofOperand.scanFrom_eq] <;>
        repeat rw [scanFrom_ofList]
      all_goals decide
  | sequence members ofMembers | choice members ofMembers =>
      have together := isNested_skeletons_separated (List.forall_mem_map.mpr ofMembers)
      rw [Text.isNested_iff]
      simp only [segments, segmentsAll_eq_map, skeletons_append, skeletons_words,
        scanFrom_append, scanFrom_skeletons_nil, together.scanFrom_eq]
      repeat rw [scanFrom_ofList]
      decide
  | parameters params body ofParams ofBody =>
      rw [Text.isNested_iff]
      simp only [segments, skeletons_append, skeletons_words, scanFrom_append,
        scanFrom_skeletons_nil, ofParams.scanFrom_eq, ofBody.scanFrom_eq]
      repeat rw [scanFrom_ofList]
      decide

/-- The fragments that a combinator brings into a file. -/
def fragments (surroundings : Surroundings) (combinator : Combinator) : List String :=
  (combinator.segments surroundings).flatMap (Segment.fragments surroundings)

/-- The text of a combinator is nested if its fragments are. -/
theorem isNested_text
    {surroundings : Surroundings}
    {combinator : Combinator}
    (nested : ∀ fragment ∈ combinator.fragments surroundings, IsNested fragment) :
    IsNested (combinator.text surroundings) := by
  rw [Text.isNested_iff, ← render_segments, scanFrom_render nested,
    (isNested_skeletons_segments surroundings combinator).scanFrom_eq]

end Combinator

/-! ## Functions -/

/-- The fragments of one definition: its variables and those of its combinator. -/
def DefinitionBlock.fragments
    (surroundings : Surroundings)
    (block : DefinitionBlock) : List String :=
  block.slots ++ block.combinator.fragments surroundings

/-- The fragments of a function: its name and those of its definitions. -/
def MatcherFunction.fragments
    (surroundings : Surroundings)
    (function : MatcherFunction) : List String :=
  function.name :: function.blocks.flatMap (DefinitionBlock.fragments surroundings)

namespace MatcherFunction

open Layout

theorem isNested_blockName (index : Nat) : IsNested (blockName index) := by
  unfold blockName
  rw [Text.isNested_iff]
  simp only [scanFrom_append, (Text.isNested_repr index).scanFrom_eq]
  repeat rw [scanFrom_ofList]
  decide

theorem isNested_nestedChoice
    {first : String}
    {others : List String}
    (ofFirst : IsNested first)
    (ofOthers : ∀ other ∈ others, IsNested other) :
    IsNested (nestedChoice first others) := by
  induction others generalizing first with
  | nil => exact ofFirst
  | cons other others inductionHypothesis =>
      obtain ⟨ofOther, ofOthers⟩ := List.forall_mem_cons.mp ofOthers
      change IsNested (nestedChoice ("_OR(" ++ first ++ ", " ++ other ++ ")") others)
      refine inductionHypothesis ?_ ofOthers
      rw [Text.isNested_iff]
      simp only [scanFrom_append, ofFirst.scanFrom_eq, ofOther.scanFrom_eq]
      repeat rw [scanFrom_ofList]
      decide

theorem isNested_topCombinator (function : MatcherFunction) :
    IsNested function.topCombinator := by
  have ofNames : ∀ name ∈ (List.range function.blocks.length).map blockName, IsNested name :=
    List.forall_mem_map.mpr fun index _ => isNested_blockName index
  unfold topCombinator
  split
  · decide
  · next names =>
      rw [names] at ofNames
      obtain ⟨ofFirst, ofOthers⟩ := List.forall_mem_cons.mp ofNames
      exact isNested_nestedChoice ofFirst ofOthers

section

variable {surroundings : Surroundings}

/-- A block is nested if its fragments are. -/
theorem isNested_blockPieces
    {block : DefinitionBlock}
    (ofItemClass : IsNested surroundings.itemClass)
    (nested : ∀ fragment ∈ block.fragments surroundings, IsNested fragment)
    (level index : Nat) :
    IsNested (render (blockPieces surroundings level index block)) := by
  obtain ⟨ofSlots, ofCombinator⟩ := List.forall_mem_append.mp nested
  have ofText := Combinator.isNested_text ofCombinator
  have ofDeclarations : IsNested
      (render (block.slots.map (slotPiece surroundings.itemClass (level + 1)))) := by
    rw [List.map_eq_flatMap]
    refine isNested_render_flatMap fun slot isSlot => ?_
    have ofSlot := ofSlots slot isSlot
    unfold slotPiece
    rw [Text.isNested_iff]
    simp only [scanFrom_render_indented, scanFrom_render_nil, scanFrom_append,
      ofSlot.scanFrom_eq, ofItemClass.scanFrom_eq]
    repeat rw [scanFrom_ofList]
    decide
  unfold blockPieces
  rw [Text.isNested_iff]
  simp only [scanFrom_render_append, scanFrom_render_indented, scanFrom_render_raw,
    scanFrom_render_nil, scanFrom_append, (isNested_blockName index).scanFrom_eq,
    ofDeclarations.scanFrom_eq, ofText.scanFrom_eq]
  repeat rw [scanFrom_ofList]
  decide

theorem isNested_blocksPieces
    {blocks : List DefinitionBlock}
    (ofItemClass : IsNested surroundings.itemClass)
    (nested : ∀ fragment ∈ blocks.flatMap (DefinitionBlock.fragments surroundings),
      IsNested fragment)
    (level index : Nat) :
    IsNested (render (blocksPieces surroundings level index blocks)) := by
  induction blocks generalizing index with
  | nil => exact Text.isNested_empty
  | cons block blocks inductionHypothesis =>
      obtain ⟨ofFirst, ofOthers⟩ := List.forall_mem_append.mp nested
      rw [blocksPieces, Layout.render_append]
      exact (isNested_blockPieces ofItemClass ofFirst level index).append
        (inductionHypothesis ofOthers (index + 1))

theorem isNested_yieldPieces (level : Nat) (mode : ChoiceMode) :
    IsNested (render (yieldPieces level mode)) := by
  rw [Text.isNested_iff]
  cases mode <;>
    simp only [yieldPieces, scanFrom_render_indented, scanFrom_render_nil] <;>
    repeat rw [scanFrom_ofList]
  all_goals decide

theorem isNested_bodyName
    {function : MatcherFunction}
    (ofName : IsNested function.name) :
    IsNested function.bodyName := by
  unfold bodyName
  rw [Text.isNested_iff]
  simp only [scanFrom_append, ofName.scanFrom_eq]
  repeat rw [scanFrom_ofList]
  decide

theorem isNested_signature
    {keyword name : String}
    (ofKeyword : IsNested keyword)
    (ofName : IsNested name) :
    IsNested (signature keyword name) := by
  unfold signature
  rw [Text.isNested_iff]
  simp only [scanFrom_append, ofKeyword.scanFrom_eq, ofName.scanFrom_eq]
  repeat rw [scanFrom_ofList]
  decide

/-- A function is nested if its fragments are, cached or not and in every mode. -/
theorem isNested_pieces
    {function : MatcherFunction}
    (ofItemClass : IsNested surroundings.itemClass)
    (nested : ∀ fragment ∈ function.fragments surroundings, IsNested fragment)
    (mode : ChoiceMode)
    (level : Nat) :
    IsNested (render (function.pieces surroundings mode level)) := by
  obtain ⟨ofName, ofFragments⟩ := List.forall_mem_cons.mp nested
  have ofKeyword : IsNested (if function.isOverride then "override" else "virtual") := by
    split <;> decide
  have ofSignature := isNested_signature ofKeyword ofName
  have ofBody := isNested_bodyName ofName
  have ofIndex : IsNested function.indexName := ofBody.append (by decide)
  have ofBlocks := isNested_blocksPieces ofItemClass ofFragments (function.blockLevel level) 0
  have ofTop := isNested_topCombinator function
  have ofYield := isNested_yieldPieces (level + 2) mode
  rw [Text.isNested_iff, pieces_eq, ← blocksPieces_eq_flatMap]
  unfold opening ending results signaturePiece openCache closeCache
  -- A cached function has one more pair of braces, around its blocks.
  cases function.isCached <;>
    simp only [if_true, if_false, Bool.false_eq_true, scanFrom_render_append,
      scanFrom_render_indented, scanFrom_render_newline, scanFrom_render_nil, scanFrom_append,
      ofSignature.scanFrom_eq, ofBody.scanFrom_eq, ofIndex.scanFrom_eq, ofBlocks.scanFrom_eq,
      ofTop.scanFrom_eq, ofYield.scanFrom_eq] <;>
    repeat rw [scanFrom_ofList]
  all_goals decide

end

end MatcherFunction

/-! ## Classes and files -/

/-- The names and types of a class. -/
def Declaration.fragments (declaration : Declaration) : List String :=
  [declaration.className, declaration.itemClass, declaration.inputType, declaration.resultType,
    declaration.baseClass]

/-- The fragments of a class: its names and types and those of its functions. -/
def MatcherClass.fragments (file : String) (matcher : MatcherClass) : List String :=
  matcher.declaration.fragments ++
    matcher.functions.flatMap (MatcherFunction.fragments (matcher.surroundings file))

/-- The fragments of a file: its namespace, the texts of the preamble and those of its
classes. -/
def ParserFile.fragments (file : ParserFile) : List String :=
  file.namespaceName :: (file.preamble ++
    file.classes.flatMap (MatcherClass.fragments file.grammarFile))

namespace MatcherClass

open Layout

theorem isNested_conversionPieces
    {itemClass type member : String}
    (ofItemClass : IsNested itemClass)
    (ofType : IsNested type)
    (ofMember : IsNested member)
    (level : Nat) :
    IsNested (render (conversionPieces level itemClass type member)) := by
  unfold conversionPieces
  rw [Text.isNested_iff]
  simp only [scanFrom_render_indented, scanFrom_render_nil, scanFrom_append,
    ofItemClass.scanFrom_eq, ofType.scanFrom_eq, ofMember.scanFrom_eq]
  repeat rw [scanFrom_ofList]
  decide

section

variable {declaration : Declaration}

theorem isNested_itemClassPieces
    (nested : ∀ fragment ∈ declaration.fragments, IsNested fragment)
    (level : Nat) :
    IsNested (render (itemClassPieces level declaration)) := by
  have ofItemClass : IsNested declaration.itemClass := nested _ (by simp [Declaration.fragments])
  have ofInput : IsNested declaration.inputType := nested _ (by simp [Declaration.fragments])
  have ofResult : IsNested declaration.resultType := nested _ (by simp [Declaration.fragments])
  have ofResults := isNested_conversionPieces ofItemClass ofResult
    (by decide : IsNested "Results") (level + 1)
  have ofInputs := isNested_conversionPieces ofItemClass ofInput
    (by decide : IsNested "Inputs") (level + 1)
  unfold itemClassPieces
  rw [Text.isNested_iff]
  split <;>
    simp only [scanFrom_render_append, scanFrom_render_indented, scanFrom_render_newline,
      scanFrom_render_nil, scanFrom_append, ofItemClass.scanFrom_eq, ofResults.scanFrom_eq,
      ofInputs.scanFrom_eq] <;>
    repeat rw [scanFrom_ofList]
  all_goals decide

theorem isNested_constructorPieces
    (nested : ∀ fragment ∈ declaration.fragments, IsNested fragment)
    (level : Nat) :
    IsNested (render (constructorPieces level declaration)) := by
  have ofClass : IsNested declaration.className := nested _ (by simp [Declaration.fragments])
  have ofInput : IsNested declaration.inputType := nested _ (by simp [Declaration.fragments])
  have ofResult : IsNested declaration.resultType := nested _ (by simp [Declaration.fragments])
  unfold constructorPieces
  rw [Text.isNested_iff]
  simp only [scanFrom_render_indented, scanFrom_render_nil, scanFrom_append,
    ofClass.scanFrom_eq, ofInput.scanFrom_eq, ofResult.scanFrom_eq]
  repeat rw [scanFrom_ofList]
  decide

end

/-- A class is nested if its fragments are. -/
theorem isNested_pieces
    {file : String}
    {matcher : MatcherClass}
    (nested : ∀ fragment ∈ matcher.fragments file, IsNested fragment)
    (mode : ChoiceMode)
    (level : Nat) :
    IsNested (render (matcher.pieces file mode level)) := by
  obtain ⟨ofNames, ofFragments⟩ := List.forall_mem_append.mp nested
  have ofClass : IsNested matcher.declaration.className :=
    ofNames _ (by simp [Declaration.fragments])
  have ofBase : IsNested matcher.declaration.baseClass :=
    ofNames _ (by simp [Declaration.fragments])
  have ofItemClass : IsNested (matcher.surroundings file).itemClass :=
    ofNames matcher.declaration.itemClass (by simp [Declaration.fragments])
  have ofConstructors := isNested_constructorPieces ofNames (level + 1)
  have ofItems := isNested_itemClassPieces ofNames (level + 1)
  have ofFunctions : IsNested (render (matcher.functions.flatMap
      (·.pieces (matcher.surroundings file) mode (level + 1)))) := by
    refine isNested_render_flatMap fun function isFunction => ?_
    refine MatcherFunction.isNested_pieces ofItemClass (fun fragment inFunction => ?_) _ _
    exact ofFragments fragment (List.mem_flatMap.mpr ⟨function, isFunction, inFunction⟩)
  unfold pieces
  rw [Text.isNested_iff]
  simp only [scanFrom_render_append, scanFrom_render_indented, scanFrom_render_newline,
    scanFrom_render_nil, scanFrom_append, ofClass.scanFrom_eq, ofBase.scanFrom_eq,
    ofConstructors.scanFrom_eq, ofItems.scanFrom_eq, ofFunctions.scanFrom_eq]
  repeat rw [scanFrom_ofList]
  decide

end MatcherClass

namespace ParserFile

open Layout

theorem isNested_linePieces
    {lines : List String}
    (each : ∀ line ∈ lines, IsNested line) :
    IsNested (render (linePieces lines)) := by
  refine isNested_render_flatMap fun line isLine => ?_
  rw [Text.isNested_iff, scanFrom_render_raw, (each line isLine).scanFrom_eq,
    scanFrom_render_newline, scanFrom_render_nil]

/-- A file is nested if its imports and its fragments are. -/
theorem isNested_text
    {file : ParserFile}
    (ofImports : ∀ line ∈ file.imports, IsNested line)
    (nested : ∀ fragment ∈ file.fragments, IsNested fragment) :
    IsNested file.text := by
  obtain ⟨ofNamespace, nested⟩ := List.forall_mem_cons.mp nested
  obtain ⟨ofPreamble, ofClasses⟩ := List.forall_mem_append.mp nested
  have ofTime := Timestamp.isNested_text file.time
  have ofPieces : IsNested
      (render (file.classes.flatMap (·.pieces file.grammarFile file.mode 1))) := by
    refine isNested_render_flatMap fun matcher isClass => ?_
    refine MatcherClass.isNested_pieces (fun fragment inClass => ?_) _ _
    exact ofClasses fragment (List.mem_flatMap.mpr ⟨matcher, isClass, inClass⟩)
  unfold text pieces
  rw [Text.isNested_iff]
  simp only [scanFrom_render_append, scanFrom_render_raw, scanFrom_render_newline,
    scanFrom_render_nil, scanFrom_append, ofNamespace.scanFrom_eq, ofTime.scanFrom_eq,
    (isNested_linePieces ofImports).scanFrom_eq, (isNested_linePieces ofPreamble).scanFrom_eq,
    ofPieces.scanFrom_eq]
  repeat rw [scanFrom_ofList]
  decide

end ParserFile

/-- The imports that are added to a file are nested. -/
theorem Analysis.isNested_of_mem_imports
    {source : String}
    {tree : Node}
    {analysis : Analysis}
    (analyzed : analyze source tree = .ok analysis)
    {line : String}
    (isImport : line ∈ analysis.imports) :
    IsNested line := by
  obtain ⟨_, _, imported, _, _, _, _, rfl⟩ := analyze_eq_ok analyzed
  obtain ⟨name, isMissing, rfl⟩ := List.mem_map.mp isImport
  have ofRequired : ∀ name ∈ Analyzer.requiredImports, IsNested name := by decide
  have ofName := ofRequired name (List.mem_of_mem_filter isMissing)
  rw [Text.isNested_iff]
  simp only [scanFrom_append, ofName.scanFrom_eq]
  repeat rw [scanFrom_ofList]
  decide

/-- The text of a compilation is correctly nested if every fragment that is copied
into it is. -/
theorem compiled_text_is_nested
    {settings : Settings}
    {tree : Node}
    {text : String}
    (compiled : compile settings tree = .ok text) :
    ∃ grammars analysis file, CompilesTo settings tree text grammars analysis file ∧
      ((∀ fragment ∈ file.fragments, IsNested fragment) → IsNested text) := by
  obtain ⟨grammars, analysis, file, compiles⟩ := exists_compilesTo compiled
  refine ⟨grammars, analysis, file, compiles, fun nested => ?_⟩
  rw [← compiles.written]
  refine ParserFile.isNested_text (fun line isImport => ?_) nested
  rw [(Synthesis.grammarFile_and_imports_of_parserFile compiles.generated).2] at isImport
  exact Analysis.isNested_of_mem_imports compiles.analyzed isImport

/-- Settings for a rule whose literal and action hold brackets. -/
def bracketSettings : Settings where
  source := "G<c, i> A = \x7bnew[] \x7b1\x7d\x7d, B:b -> \x7b f(b[0]); \x7d; B = .;"
  namespaceName? := some "N"
  mode := .strict

/-- The tree of the source of `bracketSettings`. -/
def bracketTree : Node :=
  .file ⟨0, ⟨0, 52⟩, {}⟩ []
    [.grammar ⟨1, ⟨0, 52⟩, {}⟩
      (.declaration ⟨2, ⟨0, 7⟩, {}⟩
        (.genericName ⟨3, ⟨0, 7⟩, {}⟩ (.code ⟨4, ⟨0, 1⟩, {}⟩)
          [.code ⟨5, ⟨2, 3⟩, {}⟩, .code ⟨6, ⟨5, 6⟩, {}⟩]) none)
      [.rule ⟨7, ⟨8, 45⟩, {}⟩ false (.code ⟨8, ⟨8, 9⟩, {}⟩) none
        (.sequence ⟨9, ⟨12, 44⟩, {}⟩
          [.literal ⟨10, ⟨12, 23⟩, {}⟩,
            .action ⟨11, ⟨25, 44⟩, {}⟩
              (.binding ⟨12, ⟨25, 28⟩, {}⟩ (.identifier ⟨13, ⟨25, 26⟩, {}⟩)
                (.code ⟨14, ⟨27, 28⟩, {}⟩))
              (.code ⟨15, ⟨32, 44⟩, {}⟩)]),
        .rule ⟨16, ⟨46, 52⟩, {}⟩ false (.code ⟨17, ⟨46, 47⟩, {}⟩) none
          (.any ⟨18, ⟨50, 51⟩, {}⟩)]]

/-- The first rule is built anew for each call, the second is cached. -/
theorem compiled_text_is_nested_bracketTree :
    ∃ text, compile bracketSettings bracketTree = .ok text ∧
      ∃ grammars analysis file,
        CompilesTo bracketSettings bracketTree text grammars analysis file ∧
        file.fragments = ["N", "GMatcher", "GMatcherItem", "c", "i", "IronMeta.Matcher<c, i>",
          "A", "b", "new[] \x7b1\x7d", "B", "b", "g.ironmeta", "\x7b f(b[0]); \x7d", "i", "B"] ∧
        IsNested text := by
  have looked : ((analyze bracketSettings.source bracketTree).bind fun analysis =>
      Synthesis.parserFile bracketSettings analysis bracketTree.optimize).toOption.map
        ParserFile.fragments =
        some ["N", "GMatcher", "GMatcherItem", "c", "i", "IronMeta.Matcher<c, i>",
          "A", "b", "new[] \x7b1\x7d", "B", "b", "g.ironmeta", "\x7b f(b[0]); \x7d", "i",
          "B"] := by
    decide +kernel
  obtain ⟨file, generated, _⟩ := exists_eq_ok_of_toOption_map looked
  obtain ⟨analysis, analyzed, succeeds⟩ := bind_eq_ok.mp generated
  have compiled : compile bracketSettings bracketTree = .ok file.text :=
    bind_eq_ok.mpr ⟨analysis, analyzed, map_eq_ok.mpr ⟨file, succeeds, rfl⟩⟩
  obtain ⟨grammars, analysis, file, compiles, nested⟩ := compiled_text_is_nested compiled
  rw [compiles.analyzed, Except.bind, compiles.generated] at looked
  have isFragments := Option.some.inj looked
  refine ⟨_, compiled, grammars, analysis, file, compiles, isFragments, nested ?_⟩
  rw [isFragments]
  decide

end GrammarCompiler
