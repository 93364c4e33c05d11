import GrammarCompiler.Text.Line

/-!
# Settings of one run

The name and the source of the grammar file, the namespace of the generated
classes, the handling of ordered choice and the time written into the header.
-/

namespace GrammarCompiler

/-- How a matcher function treats the results of its ordered choice. -/
inductive ChoiceMode where
  /-- Ask the matcher's flag at run time. -/
  | runtime
  /-- Stop after the first result. -/
  | strict
  /-- Yield every result of every alternative. -/
  | allParses
  deriving DecidableEq, Inhabited

namespace ChoiceMode

/-- The canonical spelling. -/
def name : ChoiceMode → String
  | .runtime => "runtime"
  | .strict => "strict"
  | .allParses => "all-parses"

/-- Read the canonical spelling only. -/
def ofName? (text : String) : Option ChoiceMode :=
  [runtime, strict, allParses].find? (·.name == text)

/-- Read a spelling typed by a user: case is ignored and `all` is accepted. -/
def ofSpelling? (text : String) : Option ChoiceMode :=
  let lowered := text.map Char.toLower
  if lowered == "all" then some .allParses else ofName? lowered

/-- The complaint about a spelling that names no mode. -/
def unknownMessage (text : String) : String :=
  "unknown choice mode `" ++ text.map Char.toLower ++
    "` (expected runtime, strict or all-parses)"

end ChoiceMode

/-- The settings of one run. -/
structure Settings where
  /-- The grammar file's name, used in locations and line directives. -/
  file : String := "g.ironmeta"
  /-- The grammar source. -/
  source : String := ""
  /-- The namespace of the generated classes, if it was given. -/
  namespaceName? : Option String := none
  mode : ChoiceMode := .runtime
  /-- The time written into the header, in seconds of Unix time. -/
  time : Int := 0
  deriving Inhabited

namespace Settings

/-- The location of a byte offset of the source. -/
def locationOf (settings : Settings) (offset : Nat) : Location :=
  Text.location settings.source settings.file offset

end Settings
end GrammarCompiler
