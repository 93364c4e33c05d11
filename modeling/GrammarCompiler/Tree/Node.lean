import GrammarCompiler.Text.Line
import GrammarCompiler.Tree.Kind

/-!
# Grammar trees

A grammar tree is made of nodes of nineteen kinds.  Every node carries a tag:
its number, its span in the grammar source, and a memo of the text and the
position that were read for it before.
-/

namespace GrammarCompiler

/-- What was read for a node before.  What is remembered is not read again. -/
structure Memo where
  text? : Option String := none
  position? : Option (Nat × Nat) := none
  deriving DecidableEq, Inhabited

/-- The number, the span and the memo of a node. -/
structure Tag where
  id : Nat := 0
  span : Span := {}
  memo : Memo := {}
  deriving DecidableEq, Inhabited

/-- A node of a grammar tree. -/
inductive Node where
  | file (tag : Tag) (preamble grammars : List Node)
  | usingDirective (tag : Tag) (target : Node)
  | comment (tag : Tag)
  | grammar (tag : Tag) (header : Node) (body : List Node)
  | declaration (tag : Tag) (name : Node) (base? : Option Node)
  | genericName (tag : Tag) (name : Node) (parameters : List Node)
  /-- Host text that is copied as it stands. -/
  | code (tag : Tag)
  | rule (tag : Tag) (isOverride : Bool) (name : Node) (params? : Option Node) (body : Node)
  | literal (tag : Tag)
  /-- A name that calls a rule or refers to a variable. -/
  | identifier (tag : Tag)
  | call (tag : Tag) (name : Node) (arguments : List Node)
  | any (tag : Tag)
  | unary (tag : Tag) (operator : UnaryOperator) (operand : Node)
  /-- The match of an operand, kept in a variable. -/
  | binding (tag : Tag) (operand captured : Node)
  | condition (tag : Tag) (operand test : Node)
  | action (tag : Tag) (operand block : Node)
  | sequence (tag : Tag) (items : List Node)
  | choice (tag : Tag) (alternatives : List Node)
  | fail (tag : Tag) (message : Node)
  deriving Inhabited

namespace Node

/-- The tag of a node. -/
def tag : Node → Tag
  | file tag _ _ | usingDirective tag _ | comment tag | grammar tag _ _
  | declaration tag _ _ | genericName tag _ _ | code tag | rule tag _ _ _ _
  | literal tag | identifier tag | call tag _ _ | any tag | unary tag _ _
  | binding tag _ _ | condition tag _ _ | action tag _ _ | sequence tag _
  | choice tag _ | fail tag _ => tag

/-- The number of a node. -/
def id (node : Node) : Nat := node.tag.id

/-- The span of a node. -/
def span (node : Node) : Span := node.tag.span

/-- The kind of a node. -/
def kind : Node → Kind
  | file _ _ _ => .file
  | usingDirective _ _ => .usingDirective
  | comment _ => .comment
  | grammar _ _ _ => .grammar
  | declaration _ _ _ => .declaration
  | genericName _ _ _ => .genericName
  | code _ => .code
  | rule _ _ _ _ _ => .rule
  | literal _ => .literal
  | identifier _ => .identifier
  | call _ _ _ => .call
  | any _ => .any
  | unary _ _ _ => .unary
  | binding _ _ _ => .binding
  | condition _ _ _ => .condition
  | action _ _ _ => .action
  | sequence _ _ => .sequence
  | choice _ _ => .choice
  | fail _ _ => .fail

/-- Whether a node may stand in a rule body. -/
def isExpression (node : Node) : Bool := node.kind.isExpression

/-- The same node under another tag. -/
def withTag (tag : Tag) : Node → Node
  | file _ preamble grammars => file tag preamble grammars
  | usingDirective _ target => usingDirective tag target
  | comment _ => comment tag
  | grammar _ header body => grammar tag header body
  | declaration _ name base? => declaration tag name base?
  | genericName _ name parameters => genericName tag name parameters
  | code _ => code tag
  | rule _ isOverride name params? body => rule tag isOverride name params? body
  | literal _ => literal tag
  | identifier _ => identifier tag
  | call _ name arguments => call tag name arguments
  | any _ => any tag
  | unary _ operator operand => unary tag operator operand
  | binding _ operand captured => binding tag operand captured
  | condition _ operand test => condition tag operand test
  | action _ operand block => action tag operand block
  | sequence _ items => sequence tag items
  | choice _ alternatives => choice tag alternatives
  | fail _ message => fail tag message

@[simp] theorem tag_withTag (tag : Tag) (node : Node) : (node.withTag tag).tag = tag := by
  cases node <;> rfl

@[simp] theorem kind_withTag (tag : Tag) (node : Node) :
    (node.withTag tag).kind = node.kind := by
  cases node <;> rfl

/-- The children of a node in source order. -/
def children : Node → List Node
  | file _ preamble grammars => preamble ++ grammars
  | usingDirective _ target => [target]
  | grammar _ header body => header :: body
  | declaration _ name base? => name :: base?.toList
  | genericName _ name parameters => name :: parameters
  | rule _ _ name params? body => name :: (params?.toList ++ [body])
  | call _ name arguments => name :: arguments
  | unary _ _ operand => [operand]
  | binding _ operand captured => [operand, captured]
  | condition _ operand test => [operand, test]
  | action _ operand block => [operand, block]
  | sequence _ items => items
  | choice _ alternatives => alternatives
  | fail _ message => [message]
  | comment _ | code _ | literal _ | identifier _ | any _ => []

@[simp] theorem children_withTag (tag : Tag) (node : Node) :
    (node.withTag tag).children = node.children := by
  cases node <;> rfl

/-- The same node around other children, which take the places of the former
ones in order.  A list of another length changes nothing. -/
def withChildren (node : Node) (replacements : List Node) : Node :=
  match node, replacements with
  | file tag preamble grammars, nodes =>
      if nodes.length = preamble.length + grammars.length then
        file tag (nodes.take preamble.length) (nodes.drop preamble.length)
      else file tag preamble grammars
  | usingDirective tag _, [target] => usingDirective tag target
  | grammar tag former body, nodes =>
      match nodes with
      | head :: rest =>
          if rest.length = body.length then grammar tag head rest
          else grammar tag former body
      | [] => grammar tag former body
  | declaration tag _ none, [name] => declaration tag name none
  | declaration tag _ (some _), [name, base] => declaration tag name (some base)
  | genericName tag former parameters, nodes =>
      match nodes with
      | name :: rest =>
          if rest.length = parameters.length then genericName tag name rest
          else genericName tag former parameters
      | [] => genericName tag former parameters
  | rule tag isOverride _ none _, [name, body] => rule tag isOverride name none body
  | rule tag isOverride _ (some _) _, [name, params, body] =>
      rule tag isOverride name (some params) body
  | call tag former arguments, nodes =>
      match nodes with
      | name :: rest =>
          if rest.length = arguments.length then call tag name rest
          else call tag former arguments
      | [] => call tag former arguments
  | unary tag operator _, [operand] => unary tag operator operand
  | binding tag _ _, [operand, captured] => binding tag operand captured
  | condition tag _ _, [operand, test] => condition tag operand test
  | action tag _ _, [operand, block] => action tag operand block
  | sequence tag items, nodes =>
      if nodes.length = items.length then sequence tag nodes else sequence tag items
  | choice tag alternatives, nodes =>
      if nodes.length = alternatives.length then choice tag nodes
      else choice tag alternatives
  | fail tag _, [message] => fail tag message
  | node, _ => node

mutual

/-- The number of nodes of a tree. -/
def size : Node → Nat
  | comment _ | code _ | literal _ | identifier _ | any _ => 1
  | file _ preamble grammars => 1 + sizes preamble + sizes grammars
  | usingDirective _ target => 1 + target.size
  | grammar _ header body => 1 + header.size + sizes body
  | declaration _ name none => 1 + name.size
  | declaration _ name (some base) => 1 + name.size + base.size
  | genericName _ name parameters => 1 + name.size + sizes parameters
  | rule _ _ name none body => 1 + name.size + body.size
  | rule _ _ name (some params) body => 1 + name.size + params.size + body.size
  | call _ name arguments => 1 + name.size + sizes arguments
  | unary _ _ operand => 1 + operand.size
  | binding _ operand captured => 1 + operand.size + captured.size
  | condition _ operand test => 1 + operand.size + test.size
  | action _ operand block => 1 + operand.size + block.size
  | sequence _ items => 1 + sizes items
  | choice _ alternatives => 1 + sizes alternatives
  | fail _ message => 1 + message.size

/-- The number of nodes of some trees. -/
def sizes : List Node → Nat
  | [] => 0
  | node :: nodes => node.size + sizes nodes

end

mutual

/-- A node and all nodes below it, each before its children. -/
def preorder : Node → List Node
  | node@(comment _) | node@(code _) | node@(literal _) | node@(identifier _)
  | node@(any _) => [node]
  | node@(file _ preamble grammars) => node :: (preorders preamble ++ preorders grammars)
  | node@(usingDirective _ target) => node :: target.preorder
  | node@(grammar _ header body) => node :: (header.preorder ++ preorders body)
  | node@(declaration _ name none) => node :: name.preorder
  | node@(declaration _ name (some base)) => node :: (name.preorder ++ base.preorder)
  | node@(genericName _ name parameters) => node :: (name.preorder ++ preorders parameters)
  | node@(rule _ _ name none body) => node :: (name.preorder ++ body.preorder)
  | node@(rule _ _ name (some params) body) =>
      node :: (name.preorder ++ (params.preorder ++ body.preorder))
  | node@(call _ name arguments) => node :: (name.preorder ++ preorders arguments)
  | node@(unary _ _ operand) => node :: operand.preorder
  | node@(binding _ operand captured) => node :: (operand.preorder ++ captured.preorder)
  | node@(condition _ operand test) => node :: (operand.preorder ++ test.preorder)
  | node@(action _ operand block) => node :: (operand.preorder ++ block.preorder)
  | node@(sequence _ items) => node :: preorders items
  | node@(choice _ alternatives) => node :: preorders alternatives
  | node@(fail _ message) => node :: message.preorder

/-- The nodes of some trees, one tree after the other. -/
def preorders : List Node → List Node
  | [] => []
  | node :: nodes => node.preorder ++ preorders nodes

end

@[simp] theorem preorders_eq_flatMap (nodes : List Node) :
    preorders nodes = nodes.flatMap preorder := by
  induction nodes with
  | nil => rfl
  | cons node nodes inductionHypothesis => simp [preorders, inductionHypothesis]

mutual

/-- Change the tags of all nodes of a tree. -/
def mapTags (change : Tag → Tag) : Node → Node
  | file tag preamble grammars =>
      file (change tag) (mapTagsAll change preamble) (mapTagsAll change grammars)
  | usingDirective tag target => usingDirective (change tag) (target.mapTags change)
  | comment tag => comment (change tag)
  | grammar tag header body =>
      grammar (change tag) (header.mapTags change) (mapTagsAll change body)
  | declaration tag name none => declaration (change tag) (name.mapTags change) none
  | declaration tag name (some base) =>
      declaration (change tag) (name.mapTags change) (some (base.mapTags change))
  | genericName tag name parameters =>
      genericName (change tag) (name.mapTags change) (mapTagsAll change parameters)
  | code tag => code (change tag)
  | rule tag isOverride name none body =>
      rule (change tag) isOverride (name.mapTags change) none (body.mapTags change)
  | rule tag isOverride name (some params) body =>
      rule (change tag) isOverride (name.mapTags change) (some (params.mapTags change))
        (body.mapTags change)
  | literal tag => literal (change tag)
  | identifier tag => identifier (change tag)
  | call tag name arguments =>
      call (change tag) (name.mapTags change) (mapTagsAll change arguments)
  | any tag => any (change tag)
  | unary tag operator operand => unary (change tag) operator (operand.mapTags change)
  | binding tag operand captured =>
      binding (change tag) (operand.mapTags change) (captured.mapTags change)
  | condition tag operand test =>
      condition (change tag) (operand.mapTags change) (test.mapTags change)
  | action tag operand block =>
      action (change tag) (operand.mapTags change) (block.mapTags change)
  | sequence tag items => sequence (change tag) (mapTagsAll change items)
  | choice tag alternatives => choice (change tag) (mapTagsAll change alternatives)
  | fail tag message => fail (change tag) (message.mapTags change)

/-- Change the tags of all nodes of some trees. -/
def mapTagsAll (change : Tag → Tag) : List Node → List Node
  | [] => []
  | node :: nodes => node.mapTags change :: mapTagsAll change nodes

end

@[simp] theorem mapTagsAll_eq_map (change : Tag → Tag) (nodes : List Node) :
    mapTagsAll change nodes = nodes.map (mapTags change) := by
  induction nodes with
  | nil => rfl
  | cons node nodes inductionHypothesis => simp [mapTagsAll, inductionHypothesis]

/-- The same tag with another number. -/
def numberTag (tag : Tag) (number : Nat) : Tag := { tag with id := number }

mutual

/-- Number the nodes of a tree in preorder, beginning with a given number. -/
def numbered : Nat → Node → Node
  | first, comment tag => comment (numberTag tag first)
  | first, code tag => code (numberTag tag first)
  | first, literal tag => literal (numberTag tag first)
  | first, identifier tag => identifier (numberTag tag first)
  | first, any tag => any (numberTag tag first)
  | first, file tag preamble grammars =>
      file (numberTag tag first) (numberedAll (first + 1) preamble)
        (numberedAll (first + 1 + sizes preamble) grammars)
  | first, usingDirective tag target =>
      usingDirective (numberTag tag first) (numbered (first + 1) target)
  | first, grammar tag header body =>
      grammar (numberTag tag first) (numbered (first + 1) header)
        (numberedAll (first + 1 + header.size) body)
  | first, declaration tag name none =>
      declaration (numberTag tag first) (numbered (first + 1) name) none
  | first, declaration tag name (some base) =>
      declaration (numberTag tag first) (numbered (first + 1) name)
        (some (numbered (first + 1 + name.size) base))
  | first, genericName tag name parameters =>
      genericName (numberTag tag first) (numbered (first + 1) name)
        (numberedAll (first + 1 + name.size) parameters)
  | first, rule tag isOverride name none body =>
      rule (numberTag tag first) isOverride (numbered (first + 1) name) none
        (numbered (first + 1 + name.size) body)
  | first, rule tag isOverride name (some params) body =>
      rule (numberTag tag first) isOverride (numbered (first + 1) name)
        (some (numbered (first + 1 + name.size) params))
        (numbered (first + 1 + name.size + params.size) body)
  | first, call tag name arguments =>
      call (numberTag tag first) (numbered (first + 1) name)
        (numberedAll (first + 1 + name.size) arguments)
  | first, unary tag operator operand =>
      unary (numberTag tag first) operator (numbered (first + 1) operand)
  | first, binding tag operand captured =>
      binding (numberTag tag first) (numbered (first + 1) operand)
        (numbered (first + 1 + operand.size) captured)
  | first, condition tag operand test =>
      condition (numberTag tag first) (numbered (first + 1) operand)
        (numbered (first + 1 + operand.size) test)
  | first, action tag operand block =>
      action (numberTag tag first) (numbered (first + 1) operand)
        (numbered (first + 1 + operand.size) block)
  | first, sequence tag items =>
      sequence (numberTag tag first) (numberedAll (first + 1) items)
  | first, choice tag alternatives =>
      choice (numberTag tag first) (numberedAll (first + 1) alternatives)
  | first, fail tag message => fail (numberTag tag first) (numbered (first + 1) message)

/-- Number the nodes of some trees, one tree after the other. -/
def numberedAll : Nat → List Node → List Node
  | _, [] => []
  | first, node :: nodes => numbered first node :: numberedAll (first + node.size) nodes

end

mutual

/-- Two trees have the same kinds and spans; numbers and memos may differ. -/
def alike : Node → Node → Bool
  | comment tag, comment tag' => tag.span == tag'.span
  | code tag, code tag' => tag.span == tag'.span
  | literal tag, literal tag' => tag.span == tag'.span
  | identifier tag, identifier tag' => tag.span == tag'.span
  | any tag, any tag' => tag.span == tag'.span
  | file tag preamble grammars, file tag' preamble' grammars' =>
      tag.span == tag'.span && alikeAll preamble preamble' && alikeAll grammars grammars'
  | usingDirective tag target, usingDirective tag' target' =>
      tag.span == tag'.span && target.alike target'
  | grammar tag header body, grammar tag' header' body' =>
      tag.span == tag'.span && header.alike header' && alikeAll body body'
  | declaration tag name none, declaration tag' name' none =>
      tag.span == tag'.span && name.alike name'
  | declaration tag name (some base), declaration tag' name' (some base') =>
      tag.span == tag'.span && name.alike name' && base.alike base'
  | genericName tag name parameters, genericName tag' name' parameters' =>
      tag.span == tag'.span && name.alike name' && alikeAll parameters parameters'
  | rule tag isOverride name none body, rule tag' isOverride' name' none body' =>
      tag.span == tag'.span && isOverride == isOverride' && name.alike name' &&
        body.alike body'
  | rule tag isOverride name (some params) body,
      rule tag' isOverride' name' (some params') body' =>
      tag.span == tag'.span && isOverride == isOverride' && name.alike name' &&
        params.alike params' && body.alike body'
  | call tag name arguments, call tag' name' arguments' =>
      tag.span == tag'.span && name.alike name' && alikeAll arguments arguments'
  | unary tag operator operand, unary tag' operator' operand' =>
      tag.span == tag'.span && operator == operator' && operand.alike operand'
  | binding tag operand captured, binding tag' operand' captured' =>
      tag.span == tag'.span && operand.alike operand' && captured.alike captured'
  | condition tag operand test, condition tag' operand' test' =>
      tag.span == tag'.span && operand.alike operand' && test.alike test'
  | action tag operand block, action tag' operand' block' =>
      tag.span == tag'.span && operand.alike operand' && block.alike block'
  | sequence tag items, sequence tag' items' =>
      tag.span == tag'.span && alikeAll items items'
  | choice tag alternatives, choice tag' alternatives' =>
      tag.span == tag'.span && alikeAll alternatives alternatives'
  | fail tag message, fail tag' message' => tag.span == tag'.span && message.alike message'
  | _, _ => false

/-- Two lists of trees are alike, tree by tree. -/
def alikeAll : List Node → List Node → Bool
  | [], [] => true
  | node :: nodes, node' :: nodes' => node.alike node' && alikeAll nodes nodes'
  | _, _ => false

end

end Node
end GrammarCompiler
