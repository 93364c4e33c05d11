import GrammarCompiler.Analysis.Declaration
import GrammarCompiler.Synthesis.Combinator
import GrammarCompiler.Synthesis.Layout
import GrammarCompiler.Timestamp

/-!
# Generated files

A generated file holds one class per grammar.  A class holds one matcher
function per rule, and a function one block per definition of the rule.
-/

namespace GrammarCompiler

open Layout (Piece)

/-- The block of one definition: its variables and its combinator. -/
structure DefinitionBlock where
  slots : List String
  combinator : Combinator
  deriving Inhabited

/-- The matcher function of one rule. -/
structure MatcherFunction where
  name : String
  isOverride : Bool
  /-- The combinator is built once and shared by all calls. -/
  isCached : Bool
  blocks : List DefinitionBlock
  deriving Inhabited

/-- The matcher class of one grammar. -/
structure MatcherClass where
  declaration : Declaration
  functions : List MatcherFunction
  deriving Inhabited

/-- A generated file. -/
structure ParserFile where
  /-- The name of the grammar file. -/
  grammarFile : String
  /-- The namespace of the classes. -/
  namespaceName : String
  /-- The time in the header, in seconds of Unix time. -/
  time : Int
  mode : ChoiceMode
  /-- Directives ahead of the preamble. -/
  imports : List String
  /-- The preamble, one text per line. -/
  preamble : List String
  classes : List MatcherClass
  deriving Inhabited

namespace MatcherFunction

/-- The variable that holds the combinator of a rule. -/
def bodyName (function : MatcherFunction) : String :=
  "_" ++ function.name ++ "_Body_"

/-- The field that holds the place of a shared combinator. -/
def indexName (function : MatcherFunction) : String :=
  function.bodyName ++ "_Index_"

/-- The variable that holds the combinator of a definition. -/
def blockName (index : Nat) : String :=
  "_disj_" ++ index.repr ++ "_"

/-- The alternatives of a choice, nested to the left. -/
def nestedChoice (first : String) (others : List String) : String :=
  others.foldl (fun choice other => "_OR(" ++ choice ++ ", " ++ other ++ ")") first

/-- The combinator of all definitions. -/
def topCombinator (function : MatcherFunction) : String :=
  match (List.range function.blocks.length).map blockName with
  | [] => ""
  | first :: others => nestedChoice first others

/-- The declaration of a variable of a definition. -/
def slotPiece (itemClass : String) (level : Nat) (slot : String) : Piece :=
  .indented level ("var " ++ slot ++ " = new " ++ itemClass ++ "(\"" ++ slot ++ "\");\n")

/-- The pieces of one definition. -/
def blockPieces (surroundings : Surroundings) (level index : Nat) (block : DefinitionBlock) :
    List Piece :=
  [.indented level ("Combinator " ++ blockName index ++ " = null;\n"),
    .indented level "\x7b\n"] ++
  block.slots.map (slotPiece surroundings.itemClass (level + 1)) ++
  [.indented (level + 1) (blockName index ++ " = "),
    .raw (block.combinator.text surroundings),
    .raw ";\n",
    .indented level "\x7d\n"]

/-- The pieces of definitions, which are counted from a given index. -/
def blocksPieces (surroundings : Surroundings) (level : Nat) :
    Nat → List DefinitionBlock → List Piece
  | _, [] => []
  | index, block :: blocks =>
      blockPieces surroundings level index block ++
        blocksPieces surroundings level (index + 1) blocks

/-- What a function does with each result. -/
def yieldPieces (level : Nat) : ChoiceMode → List Piece
  | .runtime =>
      [.indented level "yield return _res_;\n\n",
        .indented level "if (StrictPEG) yield break;\n"]
  | .strict =>
      [.indented level "yield return _res_;\n\n", .indented level "yield break;\n"]
  | .allParses => [.indented level "yield return _res_;\n"]

/-- The pieces that open the building of a shared combinator. -/
def openCache (function : MatcherFunction) (level : Nat) : List Piece :=
  [.indented level ("if (" ++ function.indexName ++ " == -1 || CachedCombinators[" ++
      function.indexName ++ "] == null)\n"),
    .indented level "\x7b\n",
    .indented (level + 1) ("if (" ++ function.indexName ++ " == -1)\n"),
    .indented (level + 1) "\x7b\n",
    .indented (level + 2) (function.indexName ++ " = CachedCombinators.Count;\n"),
    .indented (level + 2) "CachedCombinators.Add(null);\n",
    .indented (level + 1) "\x7d\n\n"]

/-- The pieces that close the building of a shared combinator. -/
def closeCache (function : MatcherFunction) (level : Nat) : List Piece :=
  [.indented (level + 1) ("CachedCombinators[" ++ function.indexName ++ "] = " ++
      function.topCombinator ++ ";\n"),
    .indented level "\x7d\n\n",
    .indented level (function.bodyName ++ " = CachedCombinators[" ++ function.indexName ++
      "];\n\n")]

/-- The pieces that build the combinator, shared or anew for each call. -/
def buildPieces (surroundings : Surroundings) (level : Nat) (function : MatcherFunction) :
    List Piece :=
  if function.isCached then
    function.openCache level ++
      blocksPieces surroundings (level + 1) 0 function.blocks ++ [.newline] ++
      function.closeCache level
  else
    blocksPieces surroundings level 0 function.blocks ++ [.newline] ++
      [.indented level (function.bodyName ++ " = " ++ function.topCombinator ++ ";\n")]

/-- The pieces of a matcher function. -/
def pieces (surroundings : Surroundings) (mode : ChoiceMode) (level : Nat)
    (function : MatcherFunction) : List Piece :=
  (if function.isCached then
      [.indented level ("private int " ++ function.indexName ++ " = -1;\n\n")]
    else []) ++
  [.indented level ("protected " ++ (if function.isOverride then "override" else "virtual") ++
      " IEnumerable<MatchItem> " ++ function.name ++
      "(int _indent, IEnumerable<MatchItem> _inputs, int _index, " ++
      "IEnumerable<MatchItem> _args, Memo _memo)\n"),
    .indented level "\x7b\n",
    .indented (level + 1) ("Combinator " ++ function.bodyName ++ " = null;\n\n")] ++
  function.buildPieces surroundings (level + 1) ++
  [.newline,
    .indented (level + 1) ("foreach (var _res_ in " ++ function.bodyName ++
      ".Match(_indent+1, _inputs, _index, null, _memo))\n"),
    .indented (level + 1) "\x7b\n"] ++
  yieldPieces (level + 2) mode ++
  [.indented (level + 1) "\x7d\n", .indented level "\x7d\n\n"]

end MatcherFunction

namespace MatcherClass

/-- The text of the operators that convert matched items to a type. -/
def conversionPieces (level : Nat) (itemClass type member : String) : List Piece :=
  [.indented level ("public static implicit operator " ++ type ++ "(" ++ itemClass ++
      " item) \x7b return item." ++ member ++ ".LastOrDefault(); \x7d\n"),
    .indented level ("public static implicit operator List<" ++ type ++ ">(" ++ itemClass ++
      " item) \x7b return item." ++ member ++ ".ToList(); \x7d\n")]

/-- The pieces of the class for matched items. -/
def itemClassPieces (level : Nat) (declaration : Declaration) : List Piece :=
  [.indented level ("/// <summary>Utility class for referencing variables in conditions " ++
      "and actions.</summary>\n"),
    .indented level ("private class " ++ declaration.itemClass ++ " : MatchItem\n"),
    .indented level "\x7b\n",
    .indented (level + 1) ("public " ++ declaration.itemClass ++ "() : base() \x7b \x7d\n"),
    .indented (level + 1) ("public " ++ declaration.itemClass ++
      "(string name) : base(name) \x7b \x7d\n"),
    .indented (level + 1) ("public " ++ declaration.itemClass ++
      "(MatchItem mi) : base(mi) \x7b \x7d\n"),
    .newline] ++
  conversionPieces (level + 1) declaration.itemClass declaration.resultType "Results" ++
  (if declaration.inputType = declaration.resultType then []
    else conversionPieces (level + 1) declaration.itemClass declaration.inputType "Inputs") ++
  [.indented level "\x7d\n", .newline]

/-- The pieces of the two constructors. -/
def constructorPieces (level : Nat) (declaration : Declaration) : List Piece :=
  [.indented level "/// <summary>Default Constructor.</summary>\n",
    .indented level ("public " ++ declaration.className ++ "()\n"),
    .indented (level + 1) (": base(a => default(" ++ declaration.resultType ++ "), true)\n"),
    .indented level "\x7b\n",
    .indented level "\x7d\n\n",
    .indented level "/// <summary>Constructor.</summary>\n",
    .indented level ("public " ++ declaration.className ++ "(Func<" ++ declaration.inputType ++
      "," ++ declaration.resultType ++ "> conv, bool strictPEG)\n"),
    .indented (level + 1) ": base(conv, strictPEG)\n",
    .indented level "\x7b\n",
    .indented level "\x7d\n\n"]

/-- The names on which the combinators of a class depend. -/
def surroundings (file : String) (matcher : MatcherClass) : Surroundings :=
  { file
    itemClass := matcher.declaration.itemClass
    resultType := matcher.declaration.resultType }

/-- The pieces of a matcher class. -/
def pieces (file : String) (mode : ChoiceMode) (level : Nat) (matcher : MatcherClass) :
    List Piece :=
  [.indented level ("public partial class " ++ matcher.declaration.className ++ " : " ++
      matcher.declaration.baseClass ++ "\n"),
    .indented level "\x7b\n\n"] ++
  constructorPieces (level + 1) matcher.declaration ++
  itemClassPieces (level + 1) matcher.declaration ++
  matcher.functions.flatMap (·.pieces (matcher.surroundings file) mode (level + 1)) ++
  [.newline,
    .indented level ("\x7d // class " ++ matcher.declaration.className ++ "\n")]

end MatcherClass

namespace ParserFile

/-- The pieces of lines, each with its line break. -/
def linePieces (lines : List String) : List Piece :=
  lines.flatMap fun line => [.raw line, .newline]

/-- The pieces of a generated file. -/
def pieces (file : ParserFile) : List Piece :=
  [.raw ("// IronMeta Generated " ++ file.namespaceName ++ ": " ++ Timestamp.text file.time ++
      " UTC\n"),
    .newline] ++
  linePieces file.imports ++
  linePieces file.preamble ++
  [.newline,
    .raw ("namespace " ++ file.namespaceName ++ "\n"),
    .raw "\x7b\n",
    .newline] ++
  file.classes.flatMap (·.pieces file.grammarFile file.mode 1) ++
  [.raw ("\x7d // namespace " ++ file.namespaceName ++ "\n")]

/-- The text of a generated file. -/
def text (file : ParserFile) : String :=
  Layout.render file.pieces

end ParserFile
end GrammarCompiler
