import GrammarCompiler.CommandLine.Program
import GrammarCompiler.Proofs.Reading
import Mathlib.Data.List.Induction

/-!
# Runs over several bundles

A run takes its bundles one after the other.  Each is attempted with the files that
the attempts before it left: either a parser is written to its target, or there is a
report.  The attempts tell all that a run prints and leaves behind.  Of the parsers
that are written to one place, the last one stands there.
-/

namespace GrammarCompiler

/-! ## Written files -/

namespace FileSystem

/-- The text that stands at a path. -/
def text? (files : FileSystem) (path : String) : Option String :=
  files.contents.lookup (files.place path)

/-- The files after a text was written at a path. -/
def store (files : FileSystem) (path text : String) : FileSystem :=
  { files with contents := set (files.place path) text files.contents }

@[simp] theorem place_store (files : FileSystem) (path text : String) :
    (files.store path text).place = files.place := rfl

@[simp] theorem readError?_store (files : FileSystem) (path text : String) :
    (files.store path text).readError? = files.readError? := rfl

theorem lookup_cons
    (place text other : String)
    (contents : List (String × String)) :
    ((place, text) :: contents).lookup other =
      if other = place then some text else contents.lookup other := by
  rw [List.lookup_cons]
  by_cases same : other = place
  · simp [same]
  · rw [beq_eq_false_iff_ne.mpr same, if_neg same]

theorem lookup_set
    (place text other : String)
    (contents : List (String × String)) :
    (set place text contents).lookup other =
      if other = place then some text else contents.lookup other := by
  induction contents with
  | nil => exact lookup_cons place text other []
  | cons entry contents inductionHypothesis =>
      obtain ⟨former, formerText⟩ := entry
      rw [set, lookup_cons former]
      by_cases replaced : former = place
      · rw [if_pos replaced, lookup_cons, replaced]
        by_cases same : other = place <;> simp [same]
      · rw [if_neg replaced, lookup_cons, inductionHypothesis]
        by_cases first : other = former
        · have different : other ≠ place := fun same => replaced (first.symm.trans same)
          rw [if_pos first, if_neg different, if_pos first]
        · rw [if_neg first, if_neg first]

theorem text?_store
    (files : FileSystem)
    (path text other : String) :
    (files.store path text).text? other =
      if files.place other = files.place path then some text else files.text? other :=
  lookup_set (files.place path) text (files.place other) files.contents

/-- A text that is written elsewhere does not change what is read. -/
theorem read_store
    {files : FileSystem}
    {path other : String}
    (elsewhere : files.place other ≠ files.place path)
    (text : String) :
    (files.store path text).read other = files.read other := by
  have same : (files.store path text).text? other = files.text? other := by
    rw [text?_store, if_neg elsewhere]
  simp only [text?, place_store] at same
  simp only [read, readError?_store, place_store, same]

end FileSystem

namespace Program

/-! ## Attempts -/

/-- A parser that was generated for a bundle. -/
structure GeneratedParser where
  /-- The path of the bundle. -/
  bundle : String
  target : String
  text : String

/-- The line about a generated parser. -/
def GeneratedParser.line (parser : GeneratedParser) : String :=
  generatedLine parser.bundle parser.target

/-- Write a parser to its target. -/
def storeParser (files : FileSystem) (parser : GeneratedParser) : FileSystem :=
  files.store parser.target parser.text

/-- The attempt to generate the parser of a bundle.  The bundle is loaded and compiled,
and the text can be written to the target. -/
def attempt (options : GenerateOptions) (given : Circumstances) (files : FileSystem) (path : String) :
    Except String GeneratedParser := do
  let bundle ← loadBundle given path (files.read path)
  let settings := runSettings options given.time bundle
  match compile settings bundle.tree with
  | .error failure => throw (failureReport settings failure)
  | .ok text =>
      let target := targetPath options path bundle
      match files.writeError? target with
      | some error => throw (writeReport target error)
      | none => return { bundle := path, target, text }

/-- An attempt succeeds exactly if all its steps do. -/
theorem attempt_eq_ok_iff
    {options : GenerateOptions}
    {given : Circumstances}
    {files : FileSystem}
    {path : String}
    {parser : GeneratedParser} :
    attempt options given files path = .ok parser ↔
      ∃ bundle, loadBundle given path (files.read path) = .ok bundle ∧
        compile (runSettings options given.time bundle) bundle.tree = .ok parser.text ∧
        files.writeError? parser.target = none ∧
        parser.target = targetPath options path bundle ∧ parser.bundle = path := by
  rw [attempt, bind_eq_ok]
  apply exists_congr
  intro bundle
  apply and_congr_right
  intro loaded
  obtain ⟨bundlePath, target, text⟩ := parser
  dsimp only
  cases compiled : compile (runSettings options given.time bundle) bundle.tree with
  | error failure => simp [throw, throwThe, MonadExceptOf.throw]
  | ok compiledText =>
      cases refused : files.writeError? (targetPath options path bundle) with
      | some error =>
          simp only [throw, throwThe, MonadExceptOf.throw, reduceCtorEq, false_iff]
          rintro ⟨-, accepted, rfl, -⟩
          rw [refused] at accepted
          cases accepted
      | none =>
          simp only [pure, Except.pure, Except.ok.injEq, GeneratedParser.mk.injEq]
          constructor
          · rintro ⟨rfl, rfl, rfl⟩
            exact ⟨rfl, refused, rfl, rfl⟩
          · rintro ⟨rfl, -, rfl, rfl⟩
            exact ⟨rfl, rfl, rfl⟩

section Actions

variable (given : Circumstances) (state : State)

/-- An action goes on with the state that the one before it left. -/
theorem run_bind (action : StateM State α) (next : α → StateM State β) :
    (action >>= next).run state = (next (action.run state).1).run (action.run state).2 := rfl

theorem run_pure (result : α) : (pure result : StateM State α).run state = (result, state) := rfl

theorem run_circumstances :
    (Host.ofCircumstances given).circumstances.run state = (given, state) := rfl

theorem run_read (path : String) :
    ((Host.ofCircumstances given).read path).run state = (state.files.read path, state) := rfl

theorem run_print (line : String) :
    ((Host.ofCircumstances given).print line).run state =
      ((), { state with output := state.output ++ [line] }) := rfl

theorem run_complain (line : String) :
    ((Host.ofCircumstances given).complain line).run state =
      ((), { state with reports := state.reports ++ [line] }) := rfl

/-- A text is stored at a target that can be written to. -/
theorem run_write (target text : String) :
    ((Host.ofCircumstances given).write target text).run state =
      match state.files.writeError? target with
      | some error => (.error error, state)
      | none => (.ok (), { state with files := state.files.store target text }) := by
  cases refused : state.files.writeError? target <;>
    simp [Host.ofCircumstances, StateT.run, FileSystem.write, FileSystem.store, refused]

end Actions

/-- What is rendered is what the attempt writes, if the target can be written to. -/
theorem attempt_eq_render
    (options : GenerateOptions)
    (given : Circumstances)
    (files : FileSystem)
    (path : String) :
    attempt options given files path =
      match render options given path (files.read path) with
      | .error report => .error report
      | .ok (target, text) =>
          match files.writeError? target with
          | some error => .error (writeReport target error)
          | none => .ok { bundle := path, target, text } := by
  rw [attempt, render]
  cases loadBundle given path (files.read path) with
  | error report => rfl
  | ok bundle =>
      simp only [bind, Except.bind]
      cases compile (runSettings options given.time bundle) bundle.tree with
      | error failure => rfl
      | ok text => rfl

/-- What the program does with a bundle is what the attempt says: it writes a parser and
tells so, or it reports. -/
theorem run_generateBundle
    (options : GenerateOptions)
    (given : Circumstances)
    (state : State)
    (path : String) :
    (generateBundle (.ofCircumstances given) options path).run state =
      match attempt options given state.files path with
      | .ok parser =>
          (true,
            { state with
              files := storeParser state.files parser
              output := state.output ++ [parser.line] })
      | .error report => (false, { state with reports := state.reports ++ [failedLine report] }) := by
  simp only [generateBundle, run_bind, run_read, run_circumstances, attempt_eq_render]
  cases render options given path (state.files.read path) with
  | error report => simp only [run_bind, run_complain, run_pure]
  | ok rendered =>
      obtain ⟨target, text⟩ := rendered
      simp only [run_bind, run_write]
      cases state.files.writeError? target with
      | some error => simp only [run_bind, run_complain, run_pure]
      | none =>
          simp only [run_bind, run_print, run_pure]
          rfl

/-! ## The attempts of a run -/

/-- The attempts of a run, each with the files that the attempts before it left. -/
def attempts (options : GenerateOptions) (given : Circumstances) :
    FileSystem → List String → List (Except String GeneratedParser)
  | _, [] => []
  | files, path :: paths =>
      match attempt options given files path with
      | .ok parser => .ok parser :: attempts options given (storeParser files parser) paths
      | .error report => .error report :: attempts options given files paths

/-- The report of a failed attempt. -/
def report? : Except String GeneratedParser → Option String
  | .ok _ => none
  | .error report => some report

/-- The parsers that a run generates, in the order in which it writes them. -/
def generatedParsers (options : GenerateOptions) (given : Circumstances) (files : FileSystem)
    (bundles : List String) : List GeneratedParser :=
  (attempts options given files bundles).filterMap Except.toOption

/-- The reports of a run. -/
def failureReports (options : GenerateOptions) (given : Circumstances) (files : FileSystem)
    (bundles : List String) : List String :=
  (attempts options given files bundles).filterMap report?

/-- What a run does whose attempts are given: its parsers are written and told in their
order, then the number of parsers and of reports. -/
def GenerateRun.ofAttempts (files : FileSystem) (attempts : List (Except String GeneratedParser)) :
    GenerateRun where
  files := (attempts.filterMap Except.toOption).foldl storeParser files
  output := (attempts.filterMap Except.toOption).map (·.line) ++
    [summaryLine (attempts.filterMap Except.toOption).length (attempts.filterMap report?).length]
  reports := (attempts.filterMap report?).map failedLine
  failed := (attempts.filterMap report?).length

section Runs

variable (options : GenerateOptions) (given : Circumstances) (files : FileSystem)

theorem attempts_singleton (path : String) :
    attempts options given files [path] = [attempt options given files path] := by
  rw [attempts]
  cases attempt options given files path <;> rfl

theorem generatedParsers_cons (path : String) (paths : List String) :
    generatedParsers options given files (path :: paths) =
      match attempt options given files path with
      | .ok parser => parser :: generatedParsers options given (storeParser files parser) paths
      | .error _ => generatedParsers options given files paths := by
  rw [generatedParsers, attempts]
  cases attempt options given files path <;> rfl

theorem failureReports_cons (path : String) (paths : List String) :
    failureReports options given files (path :: paths) =
      match attempt options given files path with
      | .ok parser => failureReports options given (storeParser files parser) paths
      | .error report => report :: failureReports options given files paths := by
  rw [failureReports, attempts]
  cases attempt options given files path <;> rfl

/-- Every bundle is attempted once. -/
theorem length_attempts (bundles : List String) :
    (attempts options given files bundles).length = bundles.length := by
  induction bundles generalizing files with
  | nil => rfl
  | cons path paths inductionHypothesis =>
      rw [attempts]
      split <;> rw [List.length_cons, List.length_cons, inductionHypothesis]

/-- Every attempt ends with a parser or with a report. -/
theorem length_generatedParsers_add_failureReports (bundles : List String) :
    (generatedParsers options given files bundles).length +
      (failureReports options given files bundles).length = bundles.length := by
  rw [← length_attempts options given files bundles, generatedParsers, failureReports]
  induction attempts options given files bundles with
  | nil => rfl
  | cons attempted others inductionHypothesis =>
      cases attempted <;>
        simp only [List.filterMap_cons, Except.toOption, report?, List.length_cons] <;>
        omega

/-- A run adds to a state what its attempts say, and counts the failures. -/
theorem run_generateBundles (state : State) (bundles : List String) :
    (generateBundles (.ofCircumstances given) options bundles).run state =
      ((failureReports options given state.files bundles).length,
        { files := (generatedParsers options given state.files bundles).foldl storeParser state.files
          output := state.output ++
            (generatedParsers options given state.files bundles).map (·.line)
          reports := state.reports ++
            (failureReports options given state.files bundles).map failedLine }) := by
  induction bundles generalizing state with
  | nil =>
      rw [generateBundles, run_pure]
      simp [generatedParsers, failureReports, attempts]
  | cons path paths inductionHypothesis =>
      rw [generateBundles, run_bind, run_generateBundle, generatedParsers_cons,
        failureReports_cons]
      cases attempt options given state.files path with
      | ok parser =>
          rw [run_bind, inductionHypothesis, run_pure]
          simp
      | error report =>
          rw [run_bind, inductionHypothesis, run_pure]
          simp

/-- A run is told by its attempts. -/
theorem generateAll_eq (bundles : List String) :
    generateAll options given files bundles =
      .ofAttempts files (attempts options given files bundles) := by
  have total := length_generatedParsers_add_failureReports options given files bundles
  have succeeded : bundles.length - (failureReports options given files bundles).length =
      (generatedParsers options given files bundles).length := by omega
  rw [generateAll, generate, run_bind, run_generateBundles, run_bind, succeeded]
  rfl

@[simp] theorem files_generateAll (bundles : List String) :
    (generateAll options given files bundles).files =
      (generatedParsers options given files bundles).foldl storeParser files := by
  rw [generateAll_eq]
  rfl

@[simp] theorem reports_generateAll (bundles : List String) :
    (generateAll options given files bundles).reports =
      (failureReports options given files bundles).map failedLine := by
  rw [generateAll_eq]
  rfl

@[simp] theorem output_generateAll (bundles : List String) :
    (generateAll options given files bundles).output =
      (generatedParsers options given files bundles).map (·.line) ++
        [summaryLine (generatedParsers options given files bundles).length
          (failureReports options given files bundles).length] := by
  rw [generateAll_eq]
  rfl

@[simp] theorem failed_generateAll (bundles : List String) :
    (generateAll options given files bundles).failed =
      (failureReports options given files bundles).length := by
  rw [generateAll_eq]
  rfl

/-- A run leaves the files that the run over the later bundles leaves after the first
attempt. -/
theorem files_generateAll_cons (path : String) (paths : List String) :
    (generateAll options given files (path :: paths)).files =
      match attempt options given files path with
      | .ok parser => (generateAll options given (storeParser files parser) paths).files
      | .error _ => (generateAll options given files paths).files := by
  simp only [files_generateAll, generatedParsers_cons]
  cases attempt options given files path <;> rfl

/-- The program ends as the run over the bundles does. -/
theorem perform_generate (bundles : List String) :
    perform given files (.generate bundles options) =
      { code := if (generateAll options given files bundles).failed = 0 then 0 else 1
        state := (generateAll options given files bundles).toState } := by
  rw [perform, performOn, run_bind]
  rfl

/-- A run ends well exactly if no bundle failed. -/
theorem code_perform_generate (bundles : List String) :
    (perform given files (.generate bundles options)).code = 0 ↔
      (generateAll options given files bundles).failed = 0 := by
  simp [perform_generate]

/-- Each parser comes from the attempt at one of the bundles, with the files that the
run over the bundles before it left. -/
theorem exists_attempt_of_mem_generatedParsers
    {bundles : List String}
    {parser : GeneratedParser}
    (member : parser ∈ generatedParsers options given files bundles) :
    ∃ earlier later, bundles = earlier ++ parser.bundle :: later ∧
      attempt options given (generateAll options given files earlier).files parser.bundle =
        .ok parser := by
  induction bundles generalizing files with
  | nil => cases member
  | cons path paths inductionHypothesis =>
      rw [generatedParsers_cons] at member
      cases attempted : attempt options given files path with
      | error report =>
          rw [attempted] at member
          obtain ⟨earlier, later, rfl, ended⟩ := inductionHypothesis files member
          refine ⟨path :: earlier, later, rfl, ?_⟩
          rw [files_generateAll_cons, attempted]
          exact ended
      | ok written =>
          rw [attempted] at member
          rcases List.mem_cons.mp member with rfl | others
          · obtain ⟨_, _, _, _, _, rfl⟩ := attempt_eq_ok_iff.mp attempted
            exact ⟨[], paths, rfl, by rw [files_generateAll]; exact attempted⟩
          · obtain ⟨earlier, later, rfl, ended⟩ := inductionHypothesis _ others
            refine ⟨path :: earlier, later, rfl, ?_⟩
            rw [files_generateAll_cons, attempted]
            exact ended

end Runs

/-! ## What the files hold after a run -/

@[simp] theorem place_foldl_storeParser
    (files : FileSystem)
    (parsers : List GeneratedParser) :
    (parsers.foldl storeParser files).place = files.place := by
  induction parsers generalizing files with
  | nil => rfl
  | cons parser parsers inductionHypothesis =>
      exact inductionHypothesis (storeParser files parser)

/-- The last of some parsers whose target leads where a path leads. -/
def lastParserAt? (files : FileSystem) (path : String) (parsers : List GeneratedParser) :
    Option GeneratedParser :=
  (parsers.filter fun parser => files.place parser.target = files.place path).getLast?

theorem mem_of_lastParserAt?
    {files : FileSystem}
    {path : String}
    {parsers : List GeneratedParser}
    {last : GeneratedParser}
    (isLast : lastParserAt? files path parsers = some last) :
    last ∈ parsers ∧ files.place last.target = files.place path := by
  obtain ⟨member, samePlace⟩ := List.mem_filter.mp (List.mem_of_getLast? isLast)
  exact ⟨member, of_decide_eq_true samePlace⟩

theorem exists_lastParserAt?
    (files : FileSystem)
    {parsers : List GeneratedParser}
    {parser : GeneratedParser}
    (member : parser ∈ parsers) :
    ∃ last, lastParserAt? files parser.target parsers = some last := by
  have kept : parser ∈ parsers.filter
      fun other => files.place other.target = files.place parser.target := by
    simp [member]
  exact ⟨_, List.getLast?_eq_some_getLast (List.ne_nil_of_mem kept)⟩

/-- After some parsers were written, the last one for a place stands there; where none
was written, all is as before. -/
theorem text?_foldl_storeParser
    (files : FileSystem)
    (parsers : List GeneratedParser)
    (path : String) :
    (parsers.foldl storeParser files).text? path =
      ((lastParserAt? files path parsers).map (·.text)).or (files.text? path) := by
  induction parsers using List.reverseRecOn with
  | nil => rfl
  | append_singleton parsers parser inductionHypothesis =>
      rw [List.foldl_append, List.foldl_cons, List.foldl_nil, storeParser,
        FileSystem.text?_store, place_foldl_storeParser, inductionHypothesis]
      by_cases written : files.place parser.target = files.place path
      · simp [lastParserAt?, written]
      · simp [lastParserAt?, written, Ne.symm written]

end Program
end GrammarCompiler
