import GrammarCompiler.Tree.Reading

/-!
# Paths into a tree

A path is a list of child indices.  The nodes that a pass reads are given as a
list of touches, each at a path; `touch` leaves the memos behind that a pass
leaves when it stops at the first touch that fails.
-/

namespace GrammarCompiler

/-- The child indices that lead from a node down to another. -/
abbrev Path := List Nat

namespace Node

/-- The node at a path. -/
def at? (node : Node) : Path → Option Node
  | [] => some node
  | index :: path => (node.children[index]?).bind (·.at? path)

/-- Change the node at a path. -/
def modifyAt (change : Node → Node) : Path → Node → Node
  | [], node => change node
  | index :: path, node =>
      node.withChildren (node.children.modify index (modifyAt change path))

end Node

/-- One step of a pass, as far as memos are concerned. -/
inductive Touch where
  /-- The text of a node is read. -/
  | text (path : Path)
  /-- The positions of a node and of all nodes below it are read. -/
  | positions (path : Path)
  /-- The pass ends with a complaint. -/
  | halt
  deriving DecidableEq

namespace Touch

/-- The same step, seen from the parent of which the node is a child. -/
def under (index : Nat) : Touch → Touch
  | .text path => .text (index :: path)
  | .positions path => .positions (index :: path)
  | .halt => .halt

/-- Steps below the children of a node, which begin with a given index. -/
def underEach (steps : Node → List Touch) : Nat → List Node → List Touch
  | _, [] => []
  | index, node :: nodes =>
      (steps node).map (under index) ++ underEach steps (index + 1) nodes

end Touch

namespace Node

/-- The tree after the steps of a pass, up to the first one that fails. -/
def touch (source : String) (node : Node) : List Touch → Node
  | [] => node
  | .text path :: steps =>
      match (node.at? path).bind (·.text? source) with
      | some _ => touch source (node.modifyAt (rememberText source) path) steps
      | none => node
  | .positions path :: steps =>
      touch source (node.modifyAt (rememberPositions source) path) steps
  | .halt :: _ => node

end Node
end GrammarCompiler
