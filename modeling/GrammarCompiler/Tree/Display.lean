import GrammarCompiler.Text.Join
import GrammarCompiler.Tree.Node

/-!
# Showing a tree

The outline of a tree, one line per node, and its full form on one line.
-/

namespace GrammarCompiler
namespace Node

/-- The line of a node in an outline. -/
def outlineLine (depth : Nat) (node : Node) : String :=
  Text.spaces (2 * depth) ++ node.kind.name ++ " [" ++
    node.span.text ++ "] #" ++ node.id.repr

mutual

/-- The outline of a tree: kinds, spans and numbers, indented by depth. -/
def outlineAt (depth : Nat) : Node → List String
  | node@(comment _) | node@(code _) | node@(literal _) | node@(identifier _)
  | node@(any _) => [node.outlineLine depth]
  | node@(file _ preamble grammars) =>
      node.outlineLine depth :: (outlinesAt (depth + 1) preamble ++
        outlinesAt (depth + 1) grammars)
  | node@(usingDirective _ target) =>
      node.outlineLine depth :: target.outlineAt (depth + 1)
  | node@(grammar _ header body) =>
      node.outlineLine depth :: (header.outlineAt (depth + 1) ++
        outlinesAt (depth + 1) body)
  | node@(declaration _ name none) => node.outlineLine depth :: name.outlineAt (depth + 1)
  | node@(declaration _ name (some base)) =>
      node.outlineLine depth :: (name.outlineAt (depth + 1) ++ base.outlineAt (depth + 1))
  | node@(genericName _ name parameters) =>
      node.outlineLine depth :: (name.outlineAt (depth + 1) ++
        outlinesAt (depth + 1) parameters)
  | node@(rule _ _ name none body) =>
      node.outlineLine depth :: (name.outlineAt (depth + 1) ++ body.outlineAt (depth + 1))
  | node@(rule _ _ name (some params) body) =>
      node.outlineLine depth :: (name.outlineAt (depth + 1) ++
        (params.outlineAt (depth + 1) ++ body.outlineAt (depth + 1)))
  | node@(call _ name arguments) =>
      node.outlineLine depth :: (name.outlineAt (depth + 1) ++
        outlinesAt (depth + 1) arguments)
  | node@(unary _ _ operand) => node.outlineLine depth :: operand.outlineAt (depth + 1)
  | node@(binding _ operand captured) =>
      node.outlineLine depth :: (operand.outlineAt (depth + 1) ++
        captured.outlineAt (depth + 1))
  | node@(condition _ operand test) =>
      node.outlineLine depth :: (operand.outlineAt (depth + 1) ++ test.outlineAt (depth + 1))
  | node@(action _ operand block) =>
      node.outlineLine depth :: (operand.outlineAt (depth + 1) ++
        block.outlineAt (depth + 1))
  | node@(sequence _ items) => node.outlineLine depth :: outlinesAt (depth + 1) items
  | node@(choice _ alternatives) =>
      node.outlineLine depth :: outlinesAt (depth + 1) alternatives
  | node@(fail _ message) => node.outlineLine depth :: message.outlineAt (depth + 1)

/-- The outlines of some trees, one after the other. -/
def outlinesAt (depth : Nat) : List Node → List String
  | [] => []
  | node :: nodes => node.outlineAt depth ++ outlinesAt depth nodes

end

/-- The outline of a tree. -/
def outline (node : Node) : List String :=
  node.outlineAt 0

/-- A named record on one line. -/
def recordForm (name : String) (fields : List (String × String)) : String :=
  name ++ " \x7b " ++
    Text.joinWith ", " (fields.map fun (field, value) => field ++ ": " ++ value) ++ " \x7d"

/-- A list on one line. -/
def listForm (items : List String) : String :=
  "[" ++ Text.joinWith ", " items ++ "]"

/-- A value that may be missing. -/
def optionForm : Option String → String
  | none => "None"
  | some value => "Some(" ++ value ++ ")"

/-- The full form of a node around the form of its kind. -/
def nodeForm (tag : Tag) (kindForm : String) : String :=
  recordForm "AstNode" [("id", tag.id.repr), ("span", tag.span.text), ("kind", kindForm)]

/-- The form of a truth value. -/
def boolForm (value : Bool) : String :=
  if value then "true" else "false"

mutual

/-- The full form of a tree on one line. -/
def form : Node → String
  | comment tag => nodeForm tag Kind.comment.name
  | code tag => nodeForm tag Kind.code.name
  | literal tag => nodeForm tag Kind.literal.name
  | identifier tag => nodeForm tag Kind.identifier.name
  | any tag => nodeForm tag Kind.any.name
  | file tag preamble grammars =>
      nodeForm tag (recordForm Kind.file.name
        [("preamble", listForm (forms preamble)), ("grammars", listForm (forms grammars))])
  | usingDirective tag target =>
      nodeForm tag (recordForm Kind.usingDirective.name [("target", target.form)])
  | grammar tag header body =>
      nodeForm tag (recordForm Kind.grammar.name
        [("decl", header.form), ("body", listForm (forms body))])
  | declaration tag name none =>
      nodeForm tag (recordForm Kind.declaration.name
        [("name", name.form), ("base", optionForm none)])
  | declaration tag name (some base) =>
      nodeForm tag (recordForm Kind.declaration.name
        [("name", name.form), ("base", optionForm (some base.form))])
  | genericName tag name parameters =>
      nodeForm tag (recordForm Kind.genericName.name
        [("name", name.form), ("parameters", listForm (forms parameters))])
  | rule tag isOverride name none body =>
      nodeForm tag (recordForm Kind.rule.name
        [("is_override", boolForm isOverride), ("name", name.form),
          ("params", optionForm none), ("body", body.form)])
  | rule tag isOverride name (some params) body =>
      nodeForm tag (recordForm Kind.rule.name
        [("is_override", boolForm isOverride), ("name", name.form),
          ("params", optionForm (some params.form)), ("body", body.form)])
  | call tag name arguments =>
      nodeForm tag (recordForm Kind.call.name
        [("name", name.form), ("args", listForm (forms arguments))])
  | unary tag operator operand =>
      nodeForm tag (recordForm Kind.unary.name
        [("op", operator.name), ("operand", operand.form)])
  | binding tag operand captured =>
      nodeForm tag (recordForm Kind.binding.name
        [("operand", operand.form), ("variable", captured.form)])
  | condition tag operand test =>
      nodeForm tag (recordForm Kind.condition.name
        [("operand", operand.form), ("condition", test.form)])
  | action tag operand block =>
      nodeForm tag (recordForm Kind.action.name
        [("operand", operand.form), ("action", block.form)])
  | sequence tag items =>
      nodeForm tag (recordForm Kind.sequence.name [("items", listForm (forms items))])
  | choice tag alternatives =>
      nodeForm tag (recordForm Kind.choice.name
        [("alternatives", listForm (forms alternatives))])
  | fail tag message =>
      nodeForm tag (recordForm Kind.fail.name [("message", message.form)])

/-- The full forms of some trees. -/
def forms : List Node → List String
  | [] => []
  | node :: nodes => node.form :: forms nodes

end

@[simp] theorem forms_eq_map (nodes : List Node) : forms nodes = nodes.map form := by
  induction nodes with
  | nil => rfl
  | cons node nodes inductionHypothesis => simp [forms, inductionHypothesis]

end Node
end GrammarCompiler
