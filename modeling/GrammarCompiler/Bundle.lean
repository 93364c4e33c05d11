import GrammarCompiler.Diagnostic
import GrammarCompiler.Settings
import GrammarCompiler.Text.Blank
import GrammarCompiler.Text.Search
import GrammarCompiler.Tree.Interchange

/-!
# Grammar bundles

A bundle holds the name and the source of a grammar file together with the
tree of the source.  A bundle is loaded only if the spans of all its nodes fit
the source.
-/

namespace GrammarCompiler

/-- A grammar file with its tree. -/
structure Bundle where
  /-- The name of the grammar file. -/
  file : String
  source : String
  tree : Node
  deriving Inhabited

namespace Bundle

/-- Why a text holds no bundle. -/
inductive Failure where
  /-- The text is not a bundle in the interchange format. -/
  | malformed (complaint : ReaderComplaint)
  /-- The span of a node does not fit the source. -/
  | badSpan (kind : Kind) (span : Span) (sourceBytes : Nat) (file : String)
  deriving DecidableEq

namespace Failure

/-- The diagnostic of a failure. -/
def diagnostic : Failure → Diagnostic
  | .malformed complaint => .rejected "bundle" complaint
  | .badSpan kind span sourceBytes file =>
      .malformedAt span.start
        (kind.name ++ " node spans " ++ span.text ++ " which does not fit the " ++
          sourceBytes.repr ++ " byte source of " ++ file)

end Failure

/-- The value of a member that stands exactly once. -/
def member? (members : List (String × Json)) (name : String) : Option Json :=
  match members.filter (·.1 == name) with
  | [(_, value)] => some value
  | _ => none

/-- The text of a value that is one. -/
def stringOf? : Json → Option String
  | .string lexeme => Json.decode? lexeme
  | _ => none

/-- The bundle of the values of its three parts.  The value around them counts
as one level of nesting. -/
def ofParts? (file source tree : Json) : Option Bundle := do
  return {
    file := ← stringOf? file
    source := ← stringOf? source
    tree := ← Interchange.treeWithin? (Interchange.depthLimit - 1) tree }

/-- The bundle of a value: an object with the three parts, where other members
are ignored, or an array of exactly the three parts. -/
def ofJson? : Json → Option Bundle
  | .object members => do
      let members ← members.mapM fun (key, value) => do return (← Json.decode? key, value)
      ofParts? (← member? members "file") (← member? members "source")
        (← member? members "tree")
  | .array [file, source, tree] => ofParts? file source tree
  | _ => none

/-- The first node in preorder whose span does not fit the source. -/
def firstBadSpan? (source : String) (tree : Node) : Option Node :=
  tree.preorder.find? fun node => !Text.fits source node.span

/-- Load a bundle from its text.  How the reader explains that it rejects a text is
left to the reader. -/
def ofText (explain : String → ReaderComplaint) (text : String) : Except Failure Bundle :=
  match (Json.parse? text).bind ofJson? with
  | none => .error (.malformed (explain text))
  | some bundle =>
      match firstBadSpan? bundle.source bundle.tree with
      | some node =>
          .error (.badSpan node.kind node.span (Text.byteLength bundle.source.toList) bundle.file)
      | none => .ok bundle

/-- The interchange value of a bundle. -/
def toJson (bundle : Bundle) : Json :=
  .ofMembers
    [("file", .ofString bundle.file), ("source", .ofString bundle.source),
      ("tree", bundle.tree.toJson)]

/-- The source holds nothing but blanks. -/
def isEmpty (bundle : Bundle) : Bool :=
  Text.isAllBlank bundle.source

/-- A one-line description. -/
def description (bundle : Bundle) : String :=
  "Grammar: " ++ bundle.file ++ " (" ++ (Text.byteLength bundle.source.toList).repr ++ " bytes)"

/-- The last component of a path; none if it is missing or leads upwards. -/
def lastComponent? (path : String) : Option String :=
  match ((Text.split '/' path).filter fun part => part != "" && part != ".").getLast? with
  | some ".." => none
  | component => component

/-- A name without its last extension.  A dot at the front begins no
extension. -/
def withoutExtension (name : List Char) : List Char :=
  let reversed := name.reverse
  match reversed.dropWhile (· != '.') with
  | [] => name
  | [_] => name
  | _ :: stem => stem.reverse

/-- The name of the grammar file without directories and extension. -/
def stem (bundle : Bundle) : String :=
  match lastComponent? bundle.file with
  | none => ""
  | some name => String.ofList (withoutExtension name.toList)

/-- The settings for compiling a bundle, still without a namespace. -/
def settings (bundle : Bundle) : Settings :=
  { file := bundle.file, source := bundle.source }

end Bundle
end GrammarCompiler
