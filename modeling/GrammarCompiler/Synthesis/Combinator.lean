import GrammarCompiler.Text.Join
import GrammarCompiler.Text.Search
import GrammarCompiler.Tree.Kind

/-!
# Combinator expressions

The expressions of the matcher runtime that a rule definition becomes, and
their text in the generated file.
-/

namespace GrammarCompiler

/-- An argument of a call in the generated file. -/
inductive CallArgument where
  /-- A rule, passed as a match of its own. -/
  | rule (text : String)
  /-- A variable, passed on. -/
  | slot (text : String)
  /-- Any other value, which is converted. -/
  | value (text : String)
  deriving DecidableEq

namespace CallArgument

/-- The text of an argument. -/
def text : CallArgument → String
  | .rule text => "new MatchItem(" ++ text ++ ")"
  | .slot text => text
  | .value text => "new MatchItem(" ++ text ++ ", CONV)"

end CallArgument

/-- Host code with its place in the grammar source. -/
structure HostCode where
  text : String
  line : Nat
  column : Nat
  deriving DecidableEq

namespace HostCode

/-- The names through which host code uses the match result. -/
def resultMarkers : List String :=
  ["_IM_Result", "_IM_Start", "_IM_Next"]

/-- Whether the code uses the match result. -/
def usesResult (code : HostCode) : Bool :=
  resultMarkers.any (Text.contains code.text)

/-- Whether the code holds the word `return`. -/
def returns (code : HostCode) : Bool :=
  Text.contains code.text "return"

/-- The code between the directives that map it back to its line, moved to its
column. -/
def mapped (file : String) (code : HostCode) : String :=
  "\n#line " ++ code.line.repr ++ " \"" ++ file ++ "\"\n" ++
    Text.spaces (code.column - 1) ++ code.text ++ "\n#line default\n"

/-- The declarations of the match result, for code that uses it. -/
def resultDeclarations (itemClass : String) (code : HostCode) : String :=
  if code.usesResult then
    "var _IM_Result = new " ++ itemClass ++
      "(_IM_Result_MI_); int _IM_StartIndex = _IM_Result.StartIndex; " ++
      "int _IM_NextIndex = _IM_Result.NextIndex; "
  else ""

end HostCode

/-- A combinator expression. -/
inductive Combinator where
  | literal (snippet : String)
  | any
  | call (target : String) (arguments : List CallArgument)
  /-- The value of a variable. -/
  | reference (name : String)
  | unary (operator : UnaryOperator) (operand : Combinator)
  /-- The match of an operand, kept in a variable. -/
  | capture (operand : Combinator) (name : String)
  | condition (operand : Combinator) (test : HostCode)
  | action (operand : Combinator) (block : HostCode)
  | sequence (items : List Combinator)
  | choice (alternatives : List Combinator)
  | fail (message : String)
  /-- A rule with parameters, which are matched against the arguments of the
  call. -/
  | parameters (params body : Combinator)
  deriving Inhabited

/-- The names on which the text of a combinator depends. -/
structure Surroundings where
  /-- The name of the grammar file. -/
  file : String
  /-- The class of matched items. -/
  itemClass : String
  /-- The type of results. -/
  resultType : String
  deriving DecidableEq

namespace Combinator

/-- The text of a call. -/
def callText (target : String) : List CallArgument → String
  | [] => "_CALL(" ++ target ++ ")"
  | arguments =>
      "_CALL(" ++ target ++ ", new List<MatchItem> \x7b " ++
        Text.joinWith ", " (arguments.map CallArgument.text) ++ " \x7d)"

/-- The lambda of a condition. -/
def conditionText (surroundings : Surroundings) (test : HostCode) : String :=
  ", (_IM_Result_MI_) => \x7b " ++ test.resultDeclarations surroundings.itemClass ++
    "return (" ++ test.mapped surroundings.file ++ ");\x7d)"

/-- The lambda of an action.  An action that does not return gets a default
result. -/
def actionText (surroundings : Surroundings) (block : HostCode) : String :=
  ", (_IM_Result_MI_) => \x7b\x7b " ++ block.resultDeclarations surroundings.itemClass ++
    block.mapped surroundings.file ++ "\x7d" ++
    (if block.returns then "" else " return default(" ++ surroundings.resultType ++ ");") ++
    "\x7d)"

mutual

/-- The text of a combinator. -/
def text (surroundings : Surroundings) : Combinator → String
  | .literal snippet => "_LITERAL(" ++ snippet ++ ")"
  | .any => "_ANY()"
  | .call target arguments => callText target arguments
  | .reference name => "_REF(" ++ name ++ ", this)"
  | .unary operator operand =>
      operator.combinator ++ "(" ++ operand.text surroundings ++ ")"
  | .capture operand name => "_VAR(" ++ operand.text surroundings ++ ", " ++ name ++ ")"
  | .condition operand test =>
      "_CONDITION(" ++ operand.text surroundings ++ conditionText surroundings test
  | .action operand block =>
      "_ACTION(" ++ operand.text surroundings ++ actionText surroundings block
  | .sequence items => "_AND(" ++ Text.joinWith ", " (texts surroundings items) ++ ")"
  | .choice alternatives =>
      "_OR(" ++ Text.joinWith ", " (texts surroundings alternatives) ++ ")"
  | .fail message => "_FAIL(" ++ message ++ ")"
  | .parameters params body =>
      "_ARGS(" ++ params.text surroundings ++ ", _args, " ++ body.text surroundings ++ ")"

/-- The texts of some combinators. -/
def texts (surroundings : Surroundings) : List Combinator → List String
  | [] => []
  | combinator :: combinators =>
      combinator.text surroundings :: texts surroundings combinators

end

@[simp] theorem texts_eq_map (surroundings : Surroundings) (combinators : List Combinator) :
    texts surroundings combinators = combinators.map (text surroundings) := by
  induction combinators with
  | nil => rfl
  | cons combinator combinators inductionHypothesis => simp [texts, inductionHypothesis]

end Combinator
end GrammarCompiler
