import GrammarCompiler.Proofs.EmittedSegments
import GrammarCompiler.Proofs.SynthesisOutcome

/-!
# No definition is lost

A generated file has one class for each grammar and a class one function for each
name that the rules of the grammar declare, in the order of first declarations.
A function has one block for each rule of its name, in source order, and combines
the blocks by a choice that is nested to the left.  Its text holds these blocks
and no others.

What stands in a file is said here in the words of the file.  Pieces are counted
where a text could hold more than one of a kind.
-/

namespace GrammarCompiler

open Layout (Piece)

/-! ## Pieces of a text -/

namespace Layout

/-- How a piece reads.  A level of indentation is four spaces. -/
inductive Piece.Reads : Piece → String → Prop where
  | raw (text : String) : Reads (.raw text) text
  | indented (level : Nat) (text : String) :
      Reads (.indented level text) (String.ofList (List.replicate (4 * level) ' ') ++ text)
  | newline : Reads .newline "\n"

/-- Whether a piece is indented to a level and starts with some words. -/
def Piece.starts (level : Nat) (words : String) : Piece → Bool
  | .indented place text => place = level ∧ words.toList <+: text.toList
  | _ => false

@[simp] theorem Piece.starts_raw (level : Nat) (words text : String) :
    (raw text).starts level words = false := rfl

@[simp] theorem Piece.starts_newline (level : Nat) (words : String) :
    newline.starts level words = false := rfl

/-- An indented piece is indented to a level or further. -/
def Piece.IsWithin (level : Nat) : Piece → Prop
  | .indented place _ => level ≤ place
  | _ => True

theorem Piece.IsWithin.mono
    {level place : Nat}
    {piece : Piece}
    (within : piece.IsWithin place)
    (le : level ≤ place) :
    piece.IsWithin level := by
  cases piece with
  | indented other text => exact Nat.le_trans le within
  | _ => trivial

end Layout

/-! ## The choice between blocks -/

/-- A choice between the blocks of a function. -/
inductive BlockChoice where
  | block (index : Nat)
  | either (first second : BlockChoice)

namespace BlockChoice

/-- The text of a choice. -/
def text : BlockChoice → String
  | .block index => "_disj_" ++ index.repr ++ "_"
  | .either first second => "_OR(" ++ first.text ++ ", " ++ second.text ++ ")"

end BlockChoice

/-! ## What stands in a function -/

namespace MatcherFunction

/-- The signature of a matcher function. -/
def signature (keyword name : String) : String :=
  "protected " ++ keyword ++ " IEnumerable<MatchItem> " ++ name ++
    "(int _indent, IEnumerable<MatchItem> _inputs, int _index, " ++
    "IEnumerable<MatchItem> _args, Memo _memo)\n"

/-- The piece with the signature of a function. -/
def signaturePiece (level : Nat) (function : MatcherFunction) : Piece :=
  .indented level (signature (if function.isOverride then "override" else "virtual") function.name)

/-- The level of the blocks: those of a cached function stand in a conditional. -/
def blockLevel (level : Nat) (function : MatcherFunction) : Nat :=
  if function.isCached then level + 2 else level + 1

/-- The pieces of a function ahead of its blocks. -/
def opening (level : Nat) (function : MatcherFunction) : List Piece :=
  (if function.isCached then
      [.indented level ("private int " ++ function.indexName ++ " = -1;\n\n")]
    else []) ++
  [function.signaturePiece level,
    .indented level "\x7b\n",
    .indented (level + 1) ("Combinator " ++ function.bodyName ++ " = null;\n\n")] ++
  (if function.isCached then function.openCache (level + 1) else [])

/-- The pieces of a function after its combinator. -/
def results (mode : ChoiceMode) (level : Nat) (function : MatcherFunction) : List Piece :=
  [.newline,
    .indented (level + 1) ("foreach (var _res_ in " ++ function.bodyName ++
      ".Match(_indent+1, _inputs, _index, null, _memo))\n"),
    .indented (level + 1) "\x7b\n"] ++
  yieldPieces (level + 2) mode ++
  [.indented (level + 1) "\x7d\n", .indented level "\x7d\n\n"]

/-- The pieces of a function after its blocks. -/
def ending (mode : ChoiceMode) (level : Nat) (function : MatcherFunction) : List Piece :=
  [.newline] ++
  (if function.isCached then function.closeCache (level + 1)
    else [.indented (level + 1) (function.bodyName ++ " = " ++ function.topCombinator ++ ";\n")]) ++
  function.results mode level

theorem blocksPieces_eq_flatMap
    (surroundings : Surroundings)
    (level index : Nat)
    (blocks : List DefinitionBlock) :
    blocksPieces surroundings level index blocks =
      (blocks.zipIdx index).flatMap fun (block, place) =>
        blockPieces surroundings level place block := by
  induction blocks generalizing index with
  | nil => rfl
  | cons block blocks inductionHypothesis =>
      rw [blocksPieces, inductionHypothesis, List.zipIdx_cons, List.flatMap_cons]

section

variable (surroundings : Surroundings) (mode : ChoiceMode) (level : Nat)
variable (function : MatcherFunction)

theorem pieces_eq :
    function.pieces surroundings mode level =
      function.opening level ++
        (function.blocks.zipIdx.flatMap fun (block, index) =>
          blockPieces surroundings (function.blockLevel level) index block) ++
        function.ending mode level := by
  unfold pieces buildPieces opening ending results blockLevel signaturePiece signature
  cases function.isCached <;>
    simp only [blocksPieces_eq_flatMap, if_true, if_false, Bool.false_eq_true,
      List.append_assoc, List.append_nil, List.nil_append]

end

end MatcherFunction

/-! ## What stands in a file -/

namespace MatcherClass

variable (file : String) (mode : ChoiceMode) (level : Nat) (matcher : MatcherClass)

end MatcherClass

namespace Node

variable {source : String} {analysis : Analysis} {node : Node}

end Node

end GrammarCompiler
