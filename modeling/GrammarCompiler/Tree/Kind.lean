/-!
# Kinds of grammar tree nodes
-/

namespace GrammarCompiler

/-- The kinds of nodes, in the order in which the interchange format counts
them. -/
inductive Kind where
  | file
  | usingDirective
  | comment
  | grammar
  | declaration
  | genericName
  | code
  | rule
  | literal
  | identifier
  | call
  | any
  | unary
  | binding
  | condition
  | action
  | sequence
  | choice
  | fail
  deriving DecidableEq, Inhabited

namespace Kind

/-- The name of a kind in the interchange format and in messages. -/
def name : Kind → String
  | .file => "File"
  | .usingDirective => "Using"
  | .comment => "Comment"
  | .grammar => "Grammar"
  | .declaration => "GrammarDecl"
  | .genericName => "GenericName"
  | .code => "Code"
  | .rule => "Rule"
  | .literal => "Literal"
  | .identifier => "CallOrVar"
  | .call => "RuleCall"
  | .any => "Any"
  | .unary => "Unary"
  | .binding => "Bound"
  | .condition => "Condition"
  | .action => "Action"
  | .sequence => "Sequence"
  | .choice => "Disjunction"
  | .fail => "Fail"

/-- All kinds in their order. -/
def all : List Kind :=
  [.file, .usingDirective, .comment, .grammar, .declaration, .genericName, .code, .rule,
    .literal, .identifier, .call, .any, .unary, .binding, .condition, .action, .sequence,
    .choice, .fail]

/-- The kind of a given name. -/
def ofName? (text : String) : Option Kind :=
  all.find? (·.name == text)

/-- The kinds that may stand in a rule body. -/
def isExpression : Kind → Bool
  | .literal | .identifier | .call | .any | .unary | .binding | .condition | .action
  | .sequence | .choice | .fail => true
  | .file | .usingDirective | .comment | .grammar | .declaration | .genericName | .code
  | .rule => false

end Kind

/-- The operators on a single expression. -/
inductive UnaryOperator where
  | optional
  | oneOrMore
  | zeroOrMore
  | lookahead
  | negativeLookahead
  deriving DecidableEq, Inhabited

namespace UnaryOperator

/-- The name of an operator in the interchange format. -/
def name : UnaryOperator → String
  | .optional => "Optional"
  | .oneOrMore => "OneOrMore"
  | .zeroOrMore => "ZeroOrMore"
  | .lookahead => "Lookahead"
  | .negativeLookahead => "NegativeLookahead"

/-- All operators. -/
def all : List UnaryOperator :=
  [.optional, .oneOrMore, .zeroOrMore, .lookahead, .negativeLookahead]

/-- The operator of a given name. -/
def ofName? (text : String) : Option UnaryOperator :=
  all.find? (·.name == text)

/-- The runtime combinator in which an operator wraps its operand. -/
def combinator : UnaryOperator → String
  | .optional => "_QUES"
  | .oneOrMore => "_PLUS"
  | .zeroOrMore => "_STAR"
  | .lookahead => "_LOOK"
  | .negativeLookahead => "_NOT"

end UnaryOperator
end GrammarCompiler
