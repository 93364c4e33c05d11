import GrammarCompiler.Tree.Node

/-!
# Reading the source through a node

The text and the position of a node come from its memo or, the first time,
from the source.  The `remember` functions are what reading leaves behind.
-/

namespace GrammarCompiler

namespace Tag

/-- The text under a tag: the remembered one, else the part of the source that
the span covers.  It is undefined if the span does not fit the source. -/
def text? (source : String) (tag : Tag) : Option String :=
  match tag.memo.text? with
  | some text => some text
  | none => Text.slice? source tag.span

/-- The line and the column under a tag: the remembered ones, else those of
the start of the span. -/
def position (source : String) (tag : Tag) : Nat × Nat :=
  match tag.memo.position? with
  | some position => position
  | none => Text.locate source tag.span.start

/-- The tag after its text was read.  A text that is not defined is not
remembered. -/
def rememberText (source : String) (tag : Tag) : Tag :=
  match tag.memo.text? with
  | some _ => tag
  | none => { tag with memo := { tag.memo with text? := Text.slice? source tag.span } }

/-- The tag after its position was read. -/
def rememberPosition (source : String) (tag : Tag) : Tag :=
  match tag.memo.position? with
  | some _ => tag
  | none =>
      { tag with memo := { tag.memo with position? := some (Text.locate source tag.span.start) } }

/-- The tag without its memo. -/
def forget (tag : Tag) : Tag :=
  { tag with memo := {} }

end Tag

namespace Node

/-- The text of a node. -/
def text? (source : String) (node : Node) : Option String :=
  node.tag.text? source

/-- The line and the column of a node. -/
def position (source : String) (node : Node) : Nat × Nat :=
  node.tag.position source

/-- The node after its text was read. -/
def rememberText (source : String) (node : Node) : Node :=
  node.withTag (node.tag.rememberText source)

/-- The node after its position was read. -/
def rememberPosition (source : String) (node : Node) : Node :=
  node.withTag (node.tag.rememberPosition source)

/-- The tree after the positions of all its nodes were read. -/
def rememberPositions (source : String) (node : Node) : Node :=
  node.mapTags (Tag.rememberPosition source)

/-- The tree without memos. -/
def forget (node : Node) : Node :=
  node.mapTags Tag.forget

/-- The remembered positions of a tree in preorder. -/
def rememberedPositions (node : Node) : List (Option (Nat × Nat)) :=
  node.preorder.map (·.tag.memo.position?)

end Node
end GrammarCompiler
