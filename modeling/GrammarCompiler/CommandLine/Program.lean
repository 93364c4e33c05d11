import GrammarCompiler.Bundle
import GrammarCompiler.CommandLine.FileSystem
import GrammarCompiler.CommandLine.Invocation
import GrammarCompiler.CommandLine.Table
import GrammarCompiler.Synthesis.Synthesize

/-!
# The program

`generate` compiles bundles one after the other; a bundle that fails does not
stop the others.  `inspect` shows the rules of one bundle.  The program is written
once, for any system that it runs on.
-/

namespace GrammarCompiler
namespace Program

/-- What a run depends on besides its arguments and files. -/
structure Circumstances where
  /-- The time, in seconds of Unix time. -/
  time : Int := 0
  /-- What the reader of bundles says about texts that it rejects. -/
  explain : String → ReaderComplaint := fun _ => default
  deriving Inhabited

/-! ## One bundle -/

/-- The line that names the program and its version. -/
def versionLine : String := "metagen 0.1.0"

/-- The report about a bundle that is not one. -/
def bundleReport (path : String) (failure : Bundle.Failure) : String :=
  failure.diagnostic.report ++ " (" ++ path ++ ")"

/-- The report about a failed pass.  The spans of a loaded bundle fit its
source, so every failure has a diagnostic. -/
def failureReport (settings : Settings) (failure : Failure) : String :=
  match failure.diagnostic? settings with
  | some diagnostic => diagnostic.report
  | none => ""

/-- Load a bundle from what was read at a path. -/
def loadBundle (given : Circumstances) (path : String)
    (read : Except FileError String) : Except String Bundle :=
  match read with
  | .error error =>
      .error ("METAGEN | ERROR | " ++ path ++ " | cannot read bundle: " ++ error.message)
  | .ok text =>
      match Bundle.ofText given.explain text with
      | .error failure => .error (bundleReport path failure)
      | .ok bundle =>
          if bundle.isEmpty then
            .error ("METAGEN | ERROR | " ++ path ++ " | bundle has an empty grammar source")
          else .ok { bundle with tree := bundle.tree.numbered 1 }

/-- The path of the file that is generated for a bundle. -/
def targetPath (options : GenerateOptions) (path : String) (bundle : Bundle) : String :=
  FilePath.join (options.outputDirectory?.getD (FilePath.parent path))
    (bundle.stem ++ ".g.cs")

/-- The settings under which a bundle of a run is compiled. -/
def runSettings (options : GenerateOptions) (time : Int) (bundle : Bundle) : Settings :=
  { bundle.settings with
    namespaceName? := some options.namespaceName
    mode := options.mode
    time }

/-- The target and the text of a bundle, from what was read at its path. -/
def render (options : GenerateOptions) (given : Circumstances) (path : String)
    (read : Except FileError String) : Except String (String × String) := do
  let bundle ← loadBundle given path read
  let settings := runSettings options given.time bundle
  match compile settings bundle.tree with
  | .ok text => return (targetPath options path bundle, text)
  | .error failure => throw (failureReport settings failure)

/-- The report about a target that cannot be written. -/
def writeReport (target : String) (error : FileError) : String :=
  (Diagnostic.output error.message target).report

/-- The line about a generated file. -/
def generatedLine (path target : String) : String :=
  "generated " ++ path ++ " -> " ++ target

/-- The line about a failure. -/
def failedLine (report : String) : String :=
  "failed " ++ report

/-- The line about all bundles. -/
def summaryLine (succeeded failed : Nat) : String :=
  "metagen: " ++ succeeded.repr ++ " succeeded, " ++ failed.repr ++ " failed"

/-- The header of the rule table. -/
def tableHeader : List String :=
  ["grammar", "rule", "alternatives", "override", "cacheable", "slots"]

/-- A truth value in the rule table. -/
def yesNo (flag : Bool) : String :=
  if flag then "yes" else "no"

/-- The row of a rule. -/
def ruleRow (className : String) (set : AlternativeSet) : List String :=
  [className, set.name, set.alternatives.length.repr, yesNo set.isOverride,
    yesNo set.isCacheable,
    Text.joinWith ", " (NameSet.ofList (set.alternatives.flatMap (·.scope.slots))).sorted]

/-- The rows of an analysis. -/
def ruleRows (analysis : Analysis) : List (List String) :=
  analysis.grammars.flatMap fun grammar =>
    grammar.rules.sets.map (ruleRow grammar.declaration.className)

/-- The lines about a bundle, from what was read at its path. -/
def inspect (given : Circumstances) (path : String)
    (read : Except FileError String) : Except String (List String) := do
  let bundle ← loadBundle given path read
  match analyze bundle.source bundle.tree with
  | .ok analysis =>
      return path :: (Table.lines tableHeader (ruleRows analysis) ++
        analysis.imports.map ("adds " ++ ·))
  | .error failure => throw (failureReport bundle.settings failure)

/-! ## The program on a system -/

/-- What the program asks of the system that it runs on. -/
structure Host (m : Type → Type) where
  circumstances : m Circumstances
  read : String → m (Except FileError String)
  write : String → String → m (Except FileError Unit)
  /-- Add a line to the standard output. -/
  print : String → m Unit
  /-- Add a line about a failure. -/
  complain : String → m Unit

/-- The exit code for rejected arguments. -/
def rejectedCode : Nat := 2

section

variable {m : Type → Type} [Monad m] (host : Host m)

/-- Generate the file of one bundle.  The result tells whether it succeeded. -/
def generateBundle (options : GenerateOptions) (path : String) : m Bool := do
  let read ← host.read path
  match render options (← host.circumstances) path read with
  | .error report =>
      host.complain (failedLine report)
      return false
  | .ok (target, text) =>
      match ← host.write target text with
      | .error error =>
          host.complain (failedLine (writeReport target error))
          return false
      | .ok () =>
          host.print (generatedLine path target)
          return true

/-- Generate the files of bundles one after the other.  The result is the number of
those that failed. -/
def generateBundles (options : GenerateOptions) : List String → m Nat
  | [] => return 0
  | path :: paths => do
      let succeeded ← generateBundle host options path
      let failed ← generateBundles options paths
      return if succeeded then failed else failed + 1

/-- Generate the files of bundles and tell how many succeeded and failed. -/
def generate (options : GenerateOptions) (bundles : List String) : m Nat := do
  let failed ← generateBundles host options bundles
  host.print (summaryLine (bundles.length - failed) failed)
  return failed

/-- Print lines. -/
def printLines : List String → m Unit
  | [] => return ()
  | line :: lines => do
      host.print line
      printLines lines

/-- Do what is asked for and give the exit code. -/
def performOn : Invocation → m Nat
  | .version => do
      host.print versionLine
      return 0
  | .help => return 0
  | .generate bundles options => do
      let failed ← generate host options bundles
      return if failed = 0 then 0 else 1
  | .inspect path => do
      let read ← host.read path
      match inspect (← host.circumstances) path read with
      | .ok lines =>
          printLines host lines
          return 0
      | .error report =>
          host.complain (failedLine report)
          return 1

/-- Run the program and give the exit code. -/
def runOn (arguments : List String) : m Nat :=
  match Invocation.ofArguments? arguments with
  | none => return rejectedCode
  | some invocation => performOn host invocation

end

/-! ## Runs on a map of files -/

/-- What the program has done so far. -/
structure State where
  files : FileSystem
  /-- The lines of the standard output. -/
  output : List String := []
  /-- The lines about failures. -/
  reports : List String := []

/-- A system whose files are a map. -/
def Host.ofCircumstances (given : Circumstances) : Host (StateM State) where
  circumstances := return given
  read path state := (state.files.read path, state)
  write path text state :=
    match state.files.write path text with
    | .ok files => (.ok (), { state with files })
    | .error error => (.error error, state)
  print line state := ((), { state with output := state.output ++ [line] })
  complain line state := ((), { state with reports := state.reports ++ [line] })

/-- What a run over bundles did, with the number of failures that it told. -/
structure GenerateRun extends State where
  failed : Nat

/-- Generate the files of bundles one after the other. -/
def generateAll (options : GenerateOptions) (given : Circumstances)
    (files : FileSystem) (bundles : List String) : GenerateRun :=
  let (failed, state) := (generate (.ofCircumstances given) options bundles).run { files }
  { state with failed }

/-- How the program ends. -/
structure Ending where
  code : Nat
  state : State

/-- Do what is asked for. -/
def perform (given : Circumstances) (files : FileSystem) (invocation : Invocation) :
    Ending :=
  let (code, state) := (performOn (.ofCircumstances given) invocation).run { files }
  { code, state }

/-- Run the program. -/
def run (given : Circumstances) (files : FileSystem) (arguments : List String) : Ending :=
  let (code, state) := (runOn (.ofCircumstances given) arguments).run { files }
  { code, state }

end Program
end GrammarCompiler
