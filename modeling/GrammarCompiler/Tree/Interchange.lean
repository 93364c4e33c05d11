import GrammarCompiler.Diagnostic
import GrammarCompiler.Json.Reader
import GrammarCompiler.Json.Writer
import GrammarCompiler.Tree.Node

/-!
# The interchange format of trees

A node is written as an object with its kind under `type`, the fields of its
kind, and the ends of its span.  A reader accepts the fields in any order and
ignores fields that the kind does not have; a field of the kind, the kind
itself and the ends of the span must not be repeated.
-/

namespace GrammarCompiler
namespace Node

/-- The object of a node. -/
def nodeJson (kind : Kind) (fields : List (String × Json)) (tag : Tag) : Json :=
  .ofMembers (("type", .ofString kind.name) ::
    (fields ++ [("start", .ofNat tag.span.start), ("next", .ofNat tag.span.next)]))

mutual

/-- The interchange value of a tree. -/
def toJson : Node → Json
  | comment tag => nodeJson .comment [] tag
  | code tag => nodeJson .code [] tag
  | literal tag => nodeJson .literal [] tag
  | identifier tag => nodeJson .identifier [] tag
  | any tag => nodeJson .any [] tag
  | file tag preamble grammars =>
      nodeJson .file
        [("preamble", .array (toJsons preamble)), ("grammars", .array (toJsons grammars))] tag
  | usingDirective tag target => nodeJson .usingDirective [("target", target.toJson)] tag
  | grammar tag header body =>
      nodeJson .grammar [("decl", header.toJson), ("body", .array (toJsons body))] tag
  | declaration tag name none =>
      nodeJson .declaration [("name", name.toJson), ("base", .null)] tag
  | declaration tag name (some base) =>
      nodeJson .declaration [("name", name.toJson), ("base", base.toJson)] tag
  | genericName tag name parameters =>
      nodeJson .genericName
        [("name", name.toJson), ("parameters", .array (toJsons parameters))] tag
  | rule tag isOverride name none body =>
      nodeJson .rule
        [("is_override", .bool isOverride), ("name", name.toJson), ("params", .null),
          ("body", body.toJson)] tag
  | rule tag isOverride name (some params) body =>
      nodeJson .rule
        [("is_override", .bool isOverride), ("name", name.toJson), ("params", params.toJson),
          ("body", body.toJson)] tag
  | call tag name arguments =>
      nodeJson .call [("name", name.toJson), ("args", .array (toJsons arguments))] tag
  | unary tag operator operand =>
      nodeJson .unary [("op", .ofString operator.name), ("operand", operand.toJson)] tag
  | binding tag operand captured =>
      nodeJson .binding [("operand", operand.toJson), ("variable", captured.toJson)] tag
  | condition tag operand test =>
      nodeJson .condition [("operand", operand.toJson), ("condition", test.toJson)] tag
  | action tag operand block =>
      nodeJson .action [("operand", operand.toJson), ("action", block.toJson)] tag
  | sequence tag items => nodeJson .sequence [("items", .array (toJsons items))] tag
  | choice tag alternatives =>
      nodeJson .choice [("alternatives", .array (toJsons alternatives))] tag
  | fail tag message => nodeJson .fail [("message", message.toJson)] tag

/-- The interchange values of some trees. -/
def toJsons : List Node → List Json
  | [] => []
  | node :: nodes => node.toJson :: toJsons nodes

end

@[simp] theorem toJsons_eq_map (nodes : List Node) : toJsons nodes = nodes.map toJson := by
  induction nodes with
  | nil => rfl
  | cons node nodes inductionHypothesis => simp [toJsons, inductionHypothesis]

end Node

namespace Interchange

/-- Everything that a value of the interchange format may stand for.  A field
is read in the sense that its kind of node asks for. -/
structure Meaning where
  /-- The value is `null`. -/
  isNull : Bool := false
  /-- The value holds nothing: `null` or an object without members. -/
  isUnit : Bool := false
  flag? : Option Bool := none
  natural? : Option Nat := none
  kind? : Option Kind := none
  operator? : Option UnaryOperator := none
  node? : Option Node := none
  nodes? : Option (List Node) := none

/-- The fields of an object with their meanings. -/
abbrev Fields := List (String × Meaning)

namespace Fields

/-- The meanings of the fields of a given name. -/
def named (fields : Fields) (name : String) : List Meaning :=
  (fields.filter (·.1 == name)).map (·.2)

/-- The meaning of a field that stands exactly once. -/
def required? (fields : Fields) (name : String) : Option Meaning :=
  match fields.named name with
  | [meaning] => some meaning
  | _ => none

/-- The node of a field that stands exactly once. -/
def node? (fields : Fields) (name : String) : Option Node :=
  (fields.required? name).bind (·.node?)

/-- The nodes of a field that stands exactly once. -/
def nodes? (fields : Fields) (name : String) : Option (List Node) :=
  (fields.required? name).bind (·.nodes?)

/-- The node of a field that may be missing or null. -/
def optionalNode? (fields : Fields) (name : String) : Option (Option Node) :=
  match fields.named name with
  | [] => some none
  | [meaning] => if meaning.isNull then some none else meaning.node?.map some
  | _ => none

/-- The span of a node. -/
def span? (fields : Fields) : Option Span := do
  let start ← (← fields.required? "start").natural?
  let next ← (← fields.required? "next").natural?
  return { start, next }

/-- The node of a given kind under a tag; its parts are in the fields. -/
def nodeOf? (fields : Fields) (kind : Kind) (tag : Tag) : Option Node := do
  match kind with
  | .file => return .file tag (← fields.nodes? "preamble") (← fields.nodes? "grammars")
  | .usingDirective => return .usingDirective tag (← fields.node? "target")
  | .comment => return .comment tag
  | .grammar => return .grammar tag (← fields.node? "decl") (← fields.nodes? "body")
  | .declaration =>
      return .declaration tag (← fields.node? "name") (← fields.optionalNode? "base")
  | .genericName =>
      return .genericName tag (← fields.node? "name") (← fields.nodes? "parameters")
  | .code => return .code tag
  | .rule =>
      let isOverride ← (← fields.required? "is_override").flag?
      return .rule tag isOverride (← fields.node? "name") (← fields.optionalNode? "params")
        (← fields.node? "body")
  | .literal => return .literal tag
  | .identifier => return .identifier tag
  | .call => return .call tag (← fields.node? "name") (← fields.nodes? "args")
  | .any => return .any tag
  | .unary =>
      let operator ← (← fields.required? "op").operator?
      return .unary tag operator (← fields.node? "operand")
  | .binding => return .binding tag (← fields.node? "operand") (← fields.node? "variable")
  | .condition => return .condition tag (← fields.node? "operand") (← fields.node? "condition")
  | .action => return .action tag (← fields.node? "operand") (← fields.node? "action")
  | .sequence => return .sequence tag (← fields.nodes? "items")
  | .choice => return .choice tag (← fields.nodes? "alternatives")
  | .fail => return .fail tag (← fields.node? "message")

/-- The node that an object stands for.  It has no number yet. -/
def toNode? (fields : Fields) : Option Node := do
  let kind ← (← fields.required? "type").kind?
  fields.nodeOf? kind { span := ← fields.span? }

/-- An operator may also be written as the key of an object that holds nothing
else. -/
def operator? : Fields → Option UnaryOperator
  | [(name, meaning)] => if meaning.isUnit then UnaryOperator.ofName? name else none
  | _ => none

end Fields

/-- The text of a lexeme; a lexeme without a text names no field. -/
def keyText (lexeme : List Char) : String :=
  (Json.decode? lexeme).getD ""

mutual

/-- The meaning of a value. -/
def meaning : Json → Meaning
  | .null => { isNull := true, isUnit := true }
  | .bool value => { flag? := some value }
  | .number lexeme =>
      { natural? := Json.Number.natural? lexeme
        kind? := (Json.Number.natural? lexeme).bind (Kind.all[·]?) }
  | .string lexeme =>
      { kind? := (Json.decode? lexeme).bind Kind.ofName?
        operator? := (Json.decode? lexeme).bind UnaryOperator.ofName? }
  | .array elements => { nodes? := elementNodes? elements }
  | .object members =>
      let fields := fieldsOf members
      { isUnit := members.isEmpty, operator? := fields.operator?, node? := fields.toNode? }

/-- The nodes of the elements of an array, if each is a node. -/
def elementNodes? : List Json → Option (List Node)
  | [] => some []
  | element :: elements =>
      match (meaning element).node?, elementNodes? elements with
      | some node, some nodes => some (node :: nodes)
      | _, _ => none

/-- The fields of an object with their meanings. -/
def fieldsOf : List (List Char × Json) → Fields
  | [] => []
  | (key, value) :: members => (keyText key, meaning value) :: fieldsOf members

end

/-- The diagnostic of a text that holds no tree. -/
def malformedTree (complaint : ReaderComplaint) : Diagnostic :=
  .rejected "tree" complaint

/-- The deepest nesting of arrays and objects that is read. -/
def depthLimit : Nat := 127

/-- The tree of a value that nests at most as deep as given. -/
def treeWithin? (limit : Nat) (json : Json) : Option Node :=
  if json.depth ≤ limit ∧ json.isStorable = true then (meaning json).node? else none

end Interchange

namespace Node

/-- The tree of an interchange value.  Its nodes have no numbers yet. -/
def ofJson? (json : Json) : Option Node :=
  Interchange.treeWithin? Interchange.depthLimit json

/-- The tree that a text holds. -/
def ofText? (text : String) : Option Node :=
  (Json.parse? text).bind ofJson?

/-- The interchange text of a tree. -/
def toText (node : Node) : String :=
  node.toJson.text

end Node
end GrammarCompiler
