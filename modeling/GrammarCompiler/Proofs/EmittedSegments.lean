import GrammarCompiler.Synthesis.Combinator

/-!
# What the text of a combinator is made of

The text of a combinator is made of words of the generator, of texts that are
copied as they stand, and of host code.  Host code stands in a lambda, between the
directives that map it back to its place.  The words of the generator hold no
directives of their own.
-/

namespace GrammarCompiler

namespace Text

theorem concat_append (left right : List String) :
    concat (left ++ right) = concat left ++ concat right := by
  induction left with
  | nil => simp [concat]
  | cons text texts inductionHypothesis => simp [concat, inductionHypothesis, String.append_assoc]

end Text

/-! ## Embedded code -/

/-- What host code does in an expression. -/
inductive CodeRole where
  /-- It decides whether a match counts. -/
  | condition
  /-- It computes the result of a match. -/
  | action
  deriving DecidableEq

/-- Host code in a generated file. -/
structure EmbeddedCode where
  role : CodeRole
  /-- The match result is declared ahead of the code. -/
  declaresResult : Bool
  /-- The line to which the code is mapped back. -/
  line : Nat
  /-- The column to which the code is moved. -/
  column : Nat
  text : String
  deriving DecidableEq

namespace EmbeddedCode

/-- The declarations of the match result. -/
def resultDeclarations (itemClass : String) : String :=
  "var _IM_Result = new " ++ itemClass ++
    "(_IM_Result_MI_); int _IM_StartIndex = _IM_Result.StartIndex; " ++
    "int _IM_NextIndex = _IM_Result.NextIndex; "

/-- The lambda ahead of the directive.  A condition returns the value of its code,
an action is a block of its own. -/
def opening (itemClass : String) (code : EmbeddedCode) : String :=
  let declarations := if code.declaresResult then resultDeclarations itemClass else ""
  match code.role with
  | .condition => ", (_IM_Result_MI_) => \x7b " ++ declarations ++ "return ("
  | .action => ", (_IM_Result_MI_) => \x7b\x7b " ++ declarations

/-- The code between its directives. -/
def mapped (file : String) (code : EmbeddedCode) : String :=
  "#line " ++ code.line.repr ++ " \"" ++ file ++ "\"\n" ++
    Text.spaces (code.column - 1) ++ code.text ++ "\n#line default\n"

end EmbeddedCode

/-- Host code as it is embedded in a given role. -/
def HostCode.embedded (role : CodeRole) (code : HostCode) : EmbeddedCode where
  role
  declaresResult := code.usesResult
  line := code.line
  column := code.column
  text := code.text

theorem HostCode.opening_condition (itemClass : String) (test : HostCode) :
    (test.embedded .condition).opening itemClass =
      ", (_IM_Result_MI_) => \x7b " ++ test.resultDeclarations itemClass ++ "return (" := rfl

theorem HostCode.opening_action (itemClass : String) (block : HostCode) :
    (block.embedded .action).opening itemClass =
      ", (_IM_Result_MI_) => \x7b\x7b " ++ block.resultDeclarations itemClass := rfl

theorem HostCode.mapped_eq (file : String) (role : CodeRole) (code : HostCode) :
    code.mapped file = "\n" ++ (code.embedded role).mapped file := by
  have directive : "\n#line " = "\n" ++ "#line " := rfl
  unfold mapped EmbeddedCode.mapped embedded
  simp only [directive, String.append_assoc]

/-! ## Segments -/

/-- A part of the text of a combinator. -/
inductive Segment where
  /-- Words of the generator. -/
  | words (text : String)
  /-- A text that is copied as it stands. -/
  | copied (text : String)
  /-- Host code, with the opening of its lambda. -/
  | embedded (code : EmbeddedCode)
  deriving DecidableEq

namespace Segment

/-- The text of a segment. -/
def text (surroundings : Surroundings) : Segment → String
  | .words text => text
  | .copied text => text
  | .embedded code =>
      code.opening surroundings.itemClass ++ "\n" ++ code.mapped surroundings.file

/-- The text of some segments. -/
def render (surroundings : Surroundings) (segments : List Segment) : String :=
  Text.concat (segments.map (text surroundings))

/-- The host code of a segment. -/
def code? : Segment → Option EmbeddedCode
  | .embedded code => some code
  | _ => none

/-- The host code of some segments, in their order. -/
def codes (segments : List Segment) : List EmbeddedCode :=
  segments.filterMap code?

/-- The words among some segments hold no directive. -/
def HasPlainWords (segments : List Segment) : Prop :=
  ∀ text, .words text ∈ segments → '#' ∉ text.toList

/-- The segments of some members, separated by commas. -/
def separated : List (List Segment) → List Segment
  | [] => []
  | [segments] => segments
  | segments :: members => segments ++ .words ", " :: separated members

section Rendering

variable (surroundings : Surroundings)

@[simp] theorem text_words (text : String) : (words text).text surroundings = text := rfl

@[simp] theorem text_copied (text : String) : (copied text).text surroundings = text := rfl

theorem text_embedded (code : EmbeddedCode) :
    (embedded code).text surroundings =
      code.opening surroundings.itemClass ++ "\n" ++ code.mapped surroundings.file := rfl

@[simp] theorem render_nil : render surroundings [] = "" := rfl

@[simp] theorem render_cons (segment : Segment) (segments : List Segment) :
    render surroundings (segment :: segments) =
      segment.text surroundings ++ render surroundings segments := rfl

@[simp] theorem render_append (left right : List Segment) :
    render surroundings (left ++ right) =
      render surroundings left ++ render surroundings right := by
  rw [render, List.map_append, Text.concat_append]
  rfl

theorem render_separated (members : List (List Segment)) :
    render surroundings (separated members) =
      Text.joinWith ", " (members.map (render surroundings)) := by
  fun_induction separated members with
  | case1 => rfl
  | case2 segments => rfl
  | case3 segments members several inductionHypothesis =>
      cases members with
      | nil => exact absurd rfl several
      | cons second others =>
          rw [List.map_cons, List.map_cons, Text.joinWith, render_append, render_cons,
            inductionHypothesis, List.map_cons, text_words, String.append_assoc]
          exact nofun

end Rendering

@[simp] theorem codes_nil : codes [] = [] := rfl

@[simp] theorem codes_words (text : String) (segments : List Segment) :
    codes (.words text :: segments) = codes segments := rfl

@[simp] theorem codes_copied (text : String) (segments : List Segment) :
    codes (.copied text :: segments) = codes segments := rfl

@[simp] theorem codes_embedded (code : EmbeddedCode) (segments : List Segment) :
    codes (.embedded code :: segments) = code :: codes segments := rfl

@[simp] theorem codes_append (left right : List Segment) :
    codes (left ++ right) = codes left ++ codes right :=
  List.filterMap_append

/-- The commas bring in no host code. -/
@[simp] theorem codes_separated (members : List (List Segment)) :
    codes (separated members) = members.flatMap codes := by
  fun_induction separated members with
  | case1 => rfl
  | case2 segments => simp
  | case3 segments members several inductionHypothesis => simp [inductionHypothesis]

@[simp] theorem hasPlainWords_nil : HasPlainWords [] := nofun

@[simp] theorem hasPlainWords_words (text : String) (segments : List Segment) :
    HasPlainWords (.words text :: segments) ↔ '#' ∉ text.toList ∧ HasPlainWords segments := by
  simp [HasPlainWords, or_imp, forall_and]

@[simp] theorem hasPlainWords_copied (text : String) (segments : List Segment) :
    HasPlainWords (.copied text :: segments) ↔ HasPlainWords segments := by
  simp [HasPlainWords]

@[simp] theorem hasPlainWords_embedded (code : EmbeddedCode) (segments : List Segment) :
    HasPlainWords (.embedded code :: segments) ↔ HasPlainWords segments := by
  simp [HasPlainWords]

@[simp] theorem hasPlainWords_append (left right : List Segment) :
    HasPlainWords (left ++ right) ↔ HasPlainWords left ∧ HasPlainWords right := by
  simp [HasPlainWords, or_imp, forall_and]

theorem hasPlainWords_separated
    {members : List (List Segment)}
    (each : ∀ segments ∈ members, HasPlainWords segments) :
    HasPlainWords (separated members) := by
  fun_induction separated members with
  | case1 => exact hasPlainWords_nil
  | case2 segments => exact each segments List.mem_cons_self
  | case3 segments members several inductionHypothesis =>
      obtain ⟨first, others⟩ := List.forall_mem_cons.mp each
      simp [first, inductionHypothesis others]

end Segment

namespace CallArgument

/-- The segments of an argument. -/
def segments : CallArgument → List Segment
  | .rule text => [.words "new MatchItem(", .copied text, .words ")"]
  | .slot text => [.copied text]
  | .value text => [.words "new MatchItem(", .copied text, .words ", CONV)"]

theorem render_segments (surroundings : Surroundings) (argument : CallArgument) :
    Segment.render surroundings argument.segments = argument.text := by
  cases argument with
  | rule text =>
      change "new MatchItem(" ++ (text ++ (")" ++ "")) = "new MatchItem(" ++ text ++ ")"
      simp only [String.append_assoc, String.append_empty]
  | slot text => exact String.append_empty
  | value text =>
      change "new MatchItem(" ++ (text ++ (", CONV)" ++ "")) = "new MatchItem(" ++ text ++ ", CONV)"
      simp only [String.append_assoc, String.append_empty]

end CallArgument

namespace Combinator

/-- The segments of a call. -/
def callSegments (target : String) : List CallArgument → List Segment
  | [] => [.words "_CALL(", .copied target, .words ")"]
  | arguments =>
      [.words "_CALL(", .copied target, .words ", new List<MatchItem> \x7b "] ++
        Segment.separated (arguments.map CallArgument.segments) ++ [.words " \x7d)"]

/-- The segments after the code of an action. -/
def actionEnding (resultType : String) (block : HostCode) : List Segment :=
  [.words "\x7d"] ++
    (if block.returns then []
      else [.words " return default(", .copied resultType, .words ");"]) ++
    [.words "\x7d)"]

mutual

/-- The segments of a combinator. -/
@[simp] def segments (surroundings : Surroundings) : Combinator → List Segment
  | .literal snippet => [.words "_LITERAL(", .copied snippet, .words ")"]
  | .any => [.words "_ANY()"]
  | .call target arguments => callSegments target arguments
  | .reference name => [.words "_REF(", .copied name, .words ", this)"]
  | .unary operator operand =>
      [.words operator.combinator, .words "("] ++ operand.segments surroundings ++ [.words ")"]
  | .capture operand name =>
      [.words "_VAR("] ++ operand.segments surroundings ++
        [.words ", ", .copied name, .words ")"]
  | .condition operand test =>
      [.words "_CONDITION("] ++ operand.segments surroundings ++
        [.embedded (test.embedded .condition), .words ");\x7d)"]
  | .action operand block =>
      [.words "_ACTION("] ++ operand.segments surroundings ++
        .embedded (block.embedded .action) :: actionEnding surroundings.resultType block
  | .sequence items =>
      [.words "_AND("] ++ Segment.separated (segmentsAll surroundings items) ++ [.words ")"]
  | .choice alternatives =>
      [.words "_OR("] ++ Segment.separated (segmentsAll surroundings alternatives) ++ [.words ")"]
  | .fail message => [.words "_FAIL(", .copied message, .words ")"]
  | .parameters params body =>
      [.words "_ARGS("] ++ params.segments surroundings ++ [.words ", _args, "] ++
        body.segments surroundings ++ [.words ")"]

/-- The segments of some combinators. -/
def segmentsAll (surroundings : Surroundings) : List Combinator → List (List Segment)
  | [] => []
  | combinator :: combinators =>
      combinator.segments surroundings :: segmentsAll surroundings combinators

end

@[simp] theorem segmentsAll_eq_map (surroundings : Surroundings) (combinators : List Combinator) :
    segmentsAll surroundings combinators = combinators.map (segments surroundings) := by
  induction combinators with
  | nil => rfl
  | cons combinator combinators inductionHypothesis =>
      simp [segmentsAll, inductionHypothesis]

/-- Induction over combinators.  A property of a combinator may be assumed for the
members of a list. -/
@[elab_as_elim, induction_eliminator]
theorem memberInduction
    {motive : Combinator → Prop}
    (literal : ∀ snippet, motive (literal snippet))
    (any : motive any)
    (call : ∀ target arguments, motive (call target arguments))
    (reference : ∀ name, motive (reference name))
    (unary : ∀ operator operand, motive operand → motive (unary operator operand))
    (capture : ∀ operand name, motive operand → motive (capture operand name))
    (condition : ∀ operand test, motive operand → motive (condition operand test))
    (action : ∀ operand block, motive operand → motive (action operand block))
    (sequence : ∀ items, (∀ item ∈ items, motive item) → motive (sequence items))
    (choice : ∀ alternatives,
      (∀ alternative ∈ alternatives, motive alternative) → motive (choice alternatives))
    (fail : ∀ message, motive (fail message))
    (parameters : ∀ params body, motive params → motive body → motive (parameters params body))
    (combinator : Combinator) :
    motive combinator :=
  @Combinator.rec motive
    (fun combinators => ∀ combinator ∈ combinators, motive combinator)
    literal any call reference unary capture condition action sequence choice fail parameters
    (fun _ member => nomatch member)
    (fun _ _ ofHead ofTail => List.forall_mem_cons.mpr ⟨ofHead, ofTail⟩)
    combinator

section

variable (surroundings : Surroundings)

theorem render_callSegments (target : String) (arguments : List CallArgument) :
    Segment.render surroundings (callSegments target arguments) = callText target arguments := by
  cases arguments with
  | nil => simp [callSegments, callText, String.append_assoc]
  | cons argument arguments =>
      have each : (argument :: arguments).map
          (Segment.render surroundings ∘ CallArgument.segments) =
            (argument :: arguments).map CallArgument.text :=
        List.map_congr_left fun argument _ => argument.render_segments surroundings
      rw [callSegments, callText, Segment.render_append, Segment.render_append,
        Segment.render_separated, List.map_map, each]
      · simp [String.append_assoc]
      · exact List.cons_ne_nil argument arguments
      · exact List.cons_ne_nil argument arguments

/-- The code of a condition is embedded ahead of the end of its lambda. -/
theorem conditionText_eq (test : HostCode) :
    conditionText surroundings test =
      Segment.text surroundings (.embedded (test.embedded .condition)) ++ ");\x7d)" := by
  unfold conditionText
  rw [Segment.text_embedded, HostCode.opening_condition, HostCode.mapped_eq _ .condition]
  simp only [String.append_assoc]

theorem actionText_eq (block : HostCode) :
    actionText surroundings block =
      Segment.text surroundings (.embedded (block.embedded .action)) ++
        Segment.render surroundings (actionEnding surroundings.resultType block) := by
  unfold actionText actionEnding
  rw [Segment.text_embedded, HostCode.opening_action, HostCode.mapped_eq _ .action]
  split <;> simp [String.append_assoc]

/-- The segments of a combinator make up its text. -/
theorem render_segments (combinator : Combinator) :
    Segment.render surroundings (combinator.segments surroundings) =
      combinator.text surroundings := by
  induction combinator with
  | sequence members ofMembers
  | choice members ofMembers =>
      have each : members.map (Segment.render surroundings ∘ segments surroundings) =
          members.map (text surroundings) := List.map_congr_left ofMembers
      simp [text, Segment.render_separated, each, String.append_assoc]
  | call target arguments => rw [segments, text, render_callSegments]
  | condition operand test ofOperand =>
      simp [text, conditionText_eq, ofOperand, String.append_assoc]
  | action operand block ofOperand =>
      simp [text, actionText_eq, ofOperand, String.append_assoc]
  | parameters params body ofParams ofBody =>
      simp [text, ofParams, ofBody, String.append_assoc]
  | unary operator operand ofOperand =>
      simp [text, ofOperand, String.append_assoc]
  | capture operand name ofOperand =>
      simp [text, ofOperand, String.append_assoc]
  | _ => simp [text, String.append_assoc]

/-! ## Host code of a combinator -/

/-- The host code in the text of a combinator, in its order. -/
def codes (combinator : Combinator) : List EmbeddedCode :=
  Segment.codes (combinator.segments surroundings)

@[simp] theorem codes_call (target : String) (arguments : List CallArgument) :
    (call target arguments).codes surroundings = [] := by
  have ofArgument (argument : CallArgument) : Segment.codes argument.segments = [] := by
    cases argument <;> rfl
  rw [codes, segments]
  cases arguments with
  | nil => rfl
  | cons argument arguments => simp [callSegments, ofArgument]

@[simp] theorem codes_unary (operator : UnaryOperator) (operand : Combinator) :
    (unary operator operand).codes surroundings = operand.codes surroundings := by
  simp [codes]

@[simp] theorem codes_capture (operand : Combinator) (name : String) :
    (capture operand name).codes surroundings = operand.codes surroundings := by
  simp [codes]

/-- The code of a condition comes after that of its operand. -/
@[simp] theorem codes_condition (operand : Combinator) (test : HostCode) :
    (condition operand test).codes surroundings =
      operand.codes surroundings ++ [test.embedded .condition] := by
  simp [codes]

/-- The code of an action comes after that of its operand. -/
@[simp] theorem codes_action (operand : Combinator) (block : HostCode) :
    (action operand block).codes surroundings =
      operand.codes surroundings ++ [block.embedded .action] := by
  have ofEnding : Segment.codes (actionEnding surroundings.resultType block) = [] := by
    rw [actionEnding]
    split <;> rfl
  simp [codes, ofEnding]

theorem codes_members (members : List Combinator) :
    Segment.codes (Segment.separated (members.map (segments surroundings))) =
      members.flatMap (codes surroundings) := by
  rw [Segment.codes_separated, List.flatMap_map]
  rfl

@[simp] theorem codes_sequence (items : List Combinator) :
    (sequence items).codes surroundings = items.flatMap (codes surroundings) := by
  rw [← codes_members]
  simp [codes]

@[simp] theorem codes_choice (alternatives : List Combinator) :
    (choice alternatives).codes surroundings = alternatives.flatMap (codes surroundings) := by
  rw [← codes_members]
  simp [codes]

@[simp] theorem codes_parameters (params body : Combinator) :
    (parameters params body).codes surroundings =
      params.codes surroundings ++ body.codes surroundings := by
  simp [codes]

/-! ## Words of the generator -/

theorem hasPlainWords_callSegments (target : String) (arguments : List CallArgument) :
    Segment.HasPlainWords (callSegments target arguments) := by
  have ofArguments : Segment.HasPlainWords
      (Segment.separated (arguments.map CallArgument.segments)) := by
    refine Segment.hasPlainWords_separated (List.forall_mem_map.mpr fun argument _ => ?_)
    cases argument <;> simp [CallArgument.segments]
  cases arguments with
  | nil => simp [callSegments]
  | cons argument arguments =>
      rw [callSegments, Segment.hasPlainWords_append, Segment.hasPlainWords_append]
      · exact ⟨⟨by simp, ofArguments⟩, by simp⟩
      · exact List.cons_ne_nil argument arguments

/-- The generator writes no directives but those around host code. -/
theorem hasPlainWords_segments (combinator : Combinator) :
    Segment.HasPlainWords (combinator.segments surroundings) := by
  induction combinator with
  | sequence members ofMembers
  | choice members ofMembers =>
      simp [Segment.hasPlainWords_separated (List.forall_mem_map.mpr ofMembers)]
  | call target arguments => rw [segments]; exact hasPlainWords_callSegments target arguments
  | condition operand test ofOperand => simp [ofOperand]
  | action operand block ofOperand =>
      have ofEnding : Segment.HasPlainWords (actionEnding surroundings.resultType block) := by
        rw [actionEnding]
        split <;> simp
      simp [ofOperand, ofEnding]
  | parameters params body ofParams ofBody => simp [ofParams, ofBody]
  | unary operator operand ofOperand =>
      cases operator <;> simp [UnaryOperator.combinator, ofOperand]
  | capture operand name ofOperand => simp [ofOperand]
  | _ => simp

end

end Combinator
end GrammarCompiler
