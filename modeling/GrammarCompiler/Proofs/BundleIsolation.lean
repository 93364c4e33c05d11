import GrammarCompiler.Proofs.BundleRuns
import GrammarCompiler.Proofs.InterchangeRoundTrip
import Mathlib.Data.List.Nodup

/-!
# What the bundles of a run do to each other

If no target leads to a bundle, every bundle of a run ends as it does alone: failures
of other bundles make no difference to it, and nothing changes but the targets of the
bundles that succeed.

Targets may still lead to one place, since they take their names from the grammar
files and not from the bundles.  Then a parser replaces one that was generated before,
and both are told to be generated.
-/

namespace GrammarCompiler
namespace Program

/-! ## Bundles that end as they do alone -/

/-- Files that no attempt at some bundles can tell from others. -/
structure AlikeFor (bundles : List String) (files original : FileSystem) : Prop where
  place : files.place = original.place
  writeError? : files.writeError? = original.writeError?
  read : ∀ path ∈ bundles, files.read path = original.read path

/-- No target of a bundle leads to a bundle. -/
def TargetsApart (options : GenerateOptions) (given : Circumstances) (files : FileSystem)
    (bundles : List String) : Prop :=
  ∀ path ∈ bundles, ∀ bundle, loadBundle given path (files.read path) = .ok bundle →
    ∀ other ∈ bundles, files.place (targetPath options path bundle) ≠ files.place other

theorem TargetsApart.mono
    {options : GenerateOptions}
    {given : Circumstances}
    {files : FileSystem}
    {bundles others : List String}
    (apart : TargetsApart options given files others)
    (subset : bundles ⊆ others) :
    TargetsApart options given files bundles :=
  fun path member bundle loaded other isOther =>
    apart path (subset member) bundle loaded other (subset isOther)

namespace AlikeFor

theorem tail
    {path : String}
    {paths : List String}
    {files original : FileSystem}
    (alike : AlikeFor (path :: paths) files original) :
    AlikeFor paths files original :=
  ⟨alike.place, alike.writeError?, fun other member =>
    alike.read other (List.mem_cons_of_mem path member)⟩

theorem attempt_eq
    {bundles : List String}
    {files original : FileSystem}
    (alike : AlikeFor bundles files original)
    (options : GenerateOptions)
    (given : Circumstances)
    {path : String}
    (member : path ∈ bundles) :
    attempt options given files path = attempt options given original path := by
  rw [attempt, attempt, alike.read path member, alike.writeError?]

/-- Writing a parser whose target leads to none of the bundles makes no difference to
them. -/
theorem storeParser
    {bundles : List String}
    {files original : FileSystem}
    (alike : AlikeFor bundles files original)
    {parser : GeneratedParser}
    (apart : ∀ path ∈ bundles, original.place parser.target ≠ original.place path) :
    AlikeFor bundles (storeParser files parser) original where
  place := alike.place
  writeError? := alike.writeError?
  read path member := by
    have elsewhere : files.place path ≠ files.place parser.target := by
      rw [alike.place]
      exact (apart path member).symm
    exact (FileSystem.read_store elsewhere parser.text).trans (alike.read path member)

/-- Each bundle of a run is attempted as if it were alone. -/
theorem attempts_eq_map
    {options : GenerateOptions}
    {bundles : List String}
    {files original : FileSystem}
    {given : Circumstances}
    (alike : AlikeFor bundles files original)
    (apart : TargetsApart options given original bundles) :
    attempts options given files bundles = bundles.map (attempt options given original) := by
  -- The files change along the run, but only at places from which no later bundle is read.
  induction bundles generalizing files with
  | nil => rfl
  | cons path paths inductionHypothesis =>
      have laterApart := apart.mono (List.subset_cons_self path paths)
      rw [attempts, List.map_cons, alike.attempt_eq options given List.mem_cons_self]
      cases attempted : attempt options given original path with
      | error report => simp only [inductionHypothesis alike.tail laterApart]
      | ok parser =>
          obtain ⟨bundle, loaded, _, _, target_eq, _⟩ := attempt_eq_ok_iff.mp attempted
          have stored : AlikeFor paths (Program.storeParser files parser) original := by
            apply alike.tail.storeParser
            intro other member
            rw [target_eq]
            exact apart path List.mem_cons_self bundle loaded other
              (List.mem_cons_of_mem path member)
          simp only [inductionHypothesis stored laterApart]

end AlikeFor

/-- With the targets apart from the bundles, each bundle is attempted as if it were
alone. -/
theorem TargetsApart.attempts_eq_map
    {options : GenerateOptions}
    {given : Circumstances}
    {files : FileSystem}
    {bundles : List String}
    (apart : TargetsApart options given files bundles) :
    attempts options given files bundles = bundles.map (attempt options given files) :=
  AlikeFor.attempts_eq_map ⟨rfl, rfl, fun _ _ => rfl⟩ apart

/-- What is collected from independent attempts is collected from runs over one
bundle. -/
theorem TargetsApart.filterMap_attempts
    {options : GenerateOptions}
    {given : Circumstances}
    {files : FileSystem}
    {bundles : List String}
    (apart : TargetsApart options given files bundles)
    (select : Except String GeneratedParser → Option α) :
    (attempts options given files bundles).filterMap select =
      bundles.flatMap fun path => (attempts options given files [path]).filterMap select := by
  rw [apart.attempts_eq_map]
  clear apart
  induction bundles with
  | nil => rfl
  | cons path paths inductionHypothesis =>
      rw [List.map_cons, List.flatMap_cons, ← inductionHypothesis, attempts_singleton,
        ← List.filterMap_append, List.singleton_append]

theorem toOption_eq_some_iff
    {step : Except ε α}
    {result : α} :
    step.toOption = some result ↔ step = .ok result := by
  cases step <;> simp [Except.toOption]

/-- The bundles of a run end as each of them does alone, and nothing changes but the
targets of those that succeed. -/
structure RunsInIsolation (options : GenerateOptions) (given : Circumstances) (files : FileSystem)
    (bundles : List String) : Prop where
  /-- Every bundle is attempted, with the outcome that it has with the original files. -/
  attempts : attempts options given files bundles = bundles.map (attempt options given files)
  /-- The run writes, prints, reports and counts what these attempts say. -/
  outcome : generateAll options given files bundles =
    .ofAttempts files (bundles.map (attempt options given files))
  /-- The reports are those of runs over each bundle alone. -/
  reports : (generateAll options given files bundles).reports =
    bundles.flatMap fun path => (generateAll options given files [path]).reports
  /-- So are the lines about generated parsers; a summary with the number of failures
  follows them. -/
  output : (generateAll options given files bundles).output =
    (bundles.flatMap fun path => (generateAll options given files [path]).output.dropLast) ++
      [summaryLine (bundles.length - (generateAll options given files bundles).failed)
        (generateAll options given files bundles).failed]
  /-- The number of failures is that of the reports, and of the bundles that fail
  alone. -/
  count : (generateAll options given files bundles).failed =
      (generateAll options given files bundles).reports.length ∧
    (generateAll options given files bundles).failed =
      bundles.countP fun path => (perform given files (.generate [path] options)).code ≠ 0
  /-- The program succeeds exactly if there was no failure. -/
  code : (perform given files (.generate bundles options)).code = 0 ↔
    (generateAll options given files bundles).failed = 0
  /-- A text that changes stands at the target of a bundle that succeeds alone. -/
  frame : ∀ path,
    (generateAll options given files bundles).files.text? path ≠ files.text? path →
      ∃ bundle ∈ bundles, ∃ parser, attempt options given files bundle = .ok parser ∧
        files.place parser.target = files.place path

/-- Bundles do not depend on each other if no target leads to a bundle. -/
theorem bundles_run_in_isolation
    (options : GenerateOptions)
    (given : Circumstances)
    (files : FileSystem)
    (bundles : List String)
    (apart : TargetsApart options given files bundles) :
    RunsInIsolation options given files bundles := by
  have attempted := apart.attempts_eq_map
  have reports : failureReports options given files bundles =
      bundles.flatMap fun path => failureReports options given files [path] :=
    apart.filterMap_attempts report?
  have parsers : generatedParsers options given files bundles =
      bundles.flatMap fun path => generatedParsers options given files [path] :=
    apart.filterMap_attempts Except.toOption
  refine ⟨attempted, ?_, ?_, ?_, ⟨?_, ?_⟩, code_perform_generate options given files bundles, ?_⟩
  · rw [generateAll_eq, attempted]
  · simp [reports, List.map_flatMap]
  · have total := length_generatedParsers_add_failureReports options given files bundles
    have succeeded : (generatedParsers options given files bundles).length =
        bundles.length - (failureReports options given files bundles).length := by omega
    have lines : (generatedParsers options given files bundles).map (·.line) =
        bundles.flatMap fun path => (generateAll options given files [path]).output.dropLast := by
      simp [parsers, List.map_flatMap]
    rw [output_generateAll, failed_generateAll, succeeded, lines]
  · rw [failed_generateAll, reports_generateAll, List.length_map]
  · rw [failed_generateAll, failureReports, attempted, List.filterMap_map,
      List.length_filterMap_eq_countP]
    apply List.countP_congr
    intro path _
    rw [decide_eq_true_iff, Ne, code_perform_generate, failed_generateAll, failureReports,
      attempts_singleton]
    cases ended : attempt options given files path <;> simp [ended, report?]
  · intro path changed
    rw [files_generateAll, text?_foldl_storeParser] at changed
    cases isLast : lastParserAt? files path (generatedParsers options given files bundles) with
    | none => simp [isLast] at changed
    | some last =>
        obtain ⟨member, samePlace⟩ := mem_of_lastParserAt? isLast
        rw [generatedParsers, attempted, List.filterMap_map] at member
        obtain ⟨bundle, isBundle, isParser⟩ := List.mem_filterMap.mp member
        exact ⟨bundle, isBundle, last, toOption_eq_some_iff.mp isParser, samePlace⟩

/-! ## Bundles of grammar files of one name -/

/-- A bundle that was written is loaded again. -/
theorem loadBundle_toJson
    {bundle : Bundle}
    (words : bundle.tree.HasWordSpans)
    (shallow : bundle.toJson.depth ≤ Interchange.depthLimit)
    (fits : bundle.tree.FitsSource bundle.source)
    (filled : bundle.isEmpty = false)
    (given : Circumstances)
    (path : String) :
    loadBundle given path (.ok bundle.toJson.text) =
      .ok { bundle with tree := bundle.tree.bare.numbered 1 } := by
  have held : (Json.parse? bundle.toJson.text).bind Bundle.ofJson? =
      some { bundle with tree := bundle.tree.bare } := by
    rw [(Bundle.isPlain_toJson words).parse?_text, Option.bind_some,
      Bundle.ofJson?_toJson words shallow]
  have accepted := (@Bundle.ofText_eq_ok_iff given.explain _ _).mpr ⟨held, Node.fitsSource_bare_iff.mpr fits⟩
  have notBlank : Bundle.isEmpty { bundle with tree := bundle.tree.bare } = false := filled
  simp [loadBundle, accepted, notBlank]

/-- The bundle of a grammar file `G` in a directory, with a rule that matches a digit. -/
def namesake (directory digit : String) : Bundle where
  file := directory ++ "/G.ironmeta"
  source := "G<c, i> A = " ++ digit ++ ";"
  tree := .file ⟨0, ⟨0, 14⟩, {}⟩ []
    [.grammar ⟨0, ⟨0, 14⟩, {}⟩
      (.declaration ⟨0, ⟨0, 7⟩, {}⟩
        (.genericName ⟨0, ⟨0, 7⟩, {}⟩ (.code ⟨0, ⟨0, 1⟩, {}⟩)
          [.code ⟨0, ⟨2, 3⟩, {}⟩, .code ⟨0, ⟨5, 6⟩, {}⟩]) none)
      [.rule ⟨0, ⟨8, 14⟩, {}⟩ false (.code ⟨0, ⟨8, 9⟩, {}⟩) none
        (.literal ⟨0, ⟨12, 13⟩, {}⟩)]]

/-- Two bundles of grammar files of one name in their directories, and a directory for
parsers. -/
def namesakeFiles : FileSystem :=
  .ofListing
    [("a/g.json", (namesake "a" "1").toJson.text), ("b/g.json", (namesake "b" "2").toJson.text)]
    ["a", "b", "out"]

/-- Options for the two bundles. -/
def namesakeOptions (outputDirectory? : Option String) : GenerateOptions where
  namespaceName := "N"
  outputDirectory?

theorem loadBundle_first :
    loadBundle {} "a/g.json" (namesakeFiles.read "a/g.json") =
      .ok { namesake "a" "1" with tree := (namesake "a" "1").tree.numbered 1 } :=
  loadBundle_toJson (by decide) (by decide) (by decide) (by decide) {} "a/g.json"

theorem loadBundle_second :
    loadBundle {} "b/g.json" (namesakeFiles.read "b/g.json") =
      .ok { namesake "b" "2" with tree := (namesake "b" "2").tree.numbered 1 } :=
  loadBundle_toJson (by decide) (by decide) (by decide) (by decide) {} "b/g.json"

/-- A run over the two bundles and one that is missing reads no parser. -/
theorem targetsApart_namesakes
    {outputDirectory? : Option String}
    (isKnown : outputDirectory? ∈ [none, some "out"]) :
    TargetsApart (namesakeOptions outputDirectory?) {} namesakeFiles
      ["a/g.json", "lost.json", "b/g.json"] := by
  intro path member bundle loaded
  have missing : namesakeFiles.read "lost.json" = .error .notFound := rfl
  simp only [List.mem_cons, List.not_mem_nil, or_false] at member isKnown
  rcases member with rfl | rfl | rfl
  · cases loadBundle_first.symm.trans loaded
    rcases isKnown with rfl | rfl <;> decide +kernel
  · simp [loadBundle, missing] at loaded
  · cases loadBundle_second.symm.trans loaded
    rcases isKnown with rfl | rfl <;> decide +kernel

/-- The missing bundle between the two makes no difference to them. -/
theorem namesakes_run_in_isolation :
    TargetsApart (namesakeOptions (some "out")) {} namesakeFiles
        ["a/g.json", "lost.json", "b/g.json"] ∧
      RunsInIsolation (namesakeOptions (some "out")) {} namesakeFiles
        ["a/g.json", "lost.json", "b/g.json"] := by
  have apart := targetsApart_namesakes (List.mem_cons_of_mem none List.mem_cons_self)
  exact ⟨apart, bundles_run_in_isolation _ {} _ _ apart⟩

/-! ## Targets that lead to one place -/

/-- If no two targets lead to one place, each parser is the last one at its target. -/
theorem lastParserAt?_eq_some
    {files : FileSystem}
    {parsers : List GeneratedParser}
    (distinct : (parsers.map fun parser => files.place parser.target).Nodup)
    {parser : GeneratedParser}
    (member : parser ∈ parsers) :
    lastParserAt? files parser.target parsers = some parser := by
  obtain ⟨last, isLast⟩ := exists_lastParserAt? files member
  obtain ⟨isMember, samePlace⟩ := mem_of_lastParserAt? isLast
  rw [isLast, List.inj_on_of_nodup_map distinct isMember member samePlace]

/-- A run tells which parsers it generated.  Each of them was compiled from the bundle
that stood at its path when its turn came, and its target holds the last parser that was
written there. -/
structure KeepsLastParsers (options : GenerateOptions) (given : Circumstances) (files : FileSystem)
    (bundles : List String) : Prop where
  /-- The run writes, prints, reports and counts what its attempts say. -/
  outcome : generateAll options given files bundles =
    .ofAttempts files (attempts options given files bundles)
  /-- The parsers are told in the order in which they were generated. -/
  output : (generateAll options given files bundles).output =
    (generatedParsers options given files bundles).map (·.line) ++
      [summaryLine (generatedParsers options given files bundles).length
        (generateAll options given files bundles).reports.length]
  /-- Each parser comes from the attempt at its bundle, after the bundles before it. -/
  origin : ∀ parser ∈ generatedParsers options given files bundles,
    ∃ earlier later, bundles = earlier ++ parser.bundle :: later ∧
      attempt options given (generateAll options given files earlier).files parser.bundle =
        .ok parser
  /-- The target of a parser holds the last parser that was written there. -/
  last : ∀ parser ∈ generatedParsers options given files bundles, ∃ last,
    lastParserAt? files parser.target (generatedParsers options given files bundles) = some last ∧
      (generateAll options given files bundles).files.text? parser.target = some last.text
  /-- No parser is lost if no two targets lead to one place. -/
  distinct : ((generatedParsers options given files bundles).map
      fun parser => files.place parser.target).Nodup →
    ∀ parser ∈ generatedParsers options given files bundles,
      (generateAll options given files bundles).files.text? parser.target = some parser.text

/-- A target may be written more than once, and then the last parser stands there. -/
theorem targets_keep_last_parsers
    (options : GenerateOptions)
    (given : Circumstances)
    (files : FileSystem)
    (bundles : List String) :
    KeepsLastParsers options given files bundles := by
  have held (path : String) := text?_foldl_storeParser files
    (generatedParsers options given files bundles) path
  refine ⟨generateAll_eq options given files bundles, by simp, ?_, ?_, ?_⟩
  · intro parser member
    exact exists_attempt_of_mem_generatedParsers options given files member
  · intro parser member
    obtain ⟨last, isLast⟩ := exists_lastParserAt? files member
    exact ⟨last, isLast, by simp [held, isLast]⟩
  · intro distinct parser member
    simp [held, lastParserAt?_eq_some distinct member]

/-- Both namesakes are compiled, to different texts. -/
theorem exists_namesake_texts :
    ∃ first second, first ≠ second ∧
      compile (runSettings (namesakeOptions none) 0 (namesake "a" "1"))
        ((namesake "a" "1").tree.numbered 1) = .ok first ∧
      compile (runSettings (namesakeOptions none) 0 (namesake "b" "2"))
        ((namesake "b" "2").tree.numbered 1) = .ok second := by
  have compared :
      (compile (runSettings (namesakeOptions none) 0 (namesake "a" "1"))
        ((namesake "a" "1").tree.numbered 1)).toOption.bind (fun first =>
          (compile (runSettings (namesakeOptions none) 0 (namesake "b" "2"))
            ((namesake "b" "2").tree.numbered 1)).toOption.map (decide <| first ≠ ·)) =
        some true := by
    decide +kernel
  obtain ⟨first, ofFirst, rest⟩ := Option.bind_eq_some_iff.mp compared
  obtain ⟨second, ofSecond, different⟩ := Option.map_eq_some_iff.mp rest
  exact ⟨first, second, of_decide_eq_true different, toOption_eq_some_iff.mp ofFirst,
    toOption_eq_some_iff.mp ofSecond⟩

/-- A run over the two bundles generates two different parsers. -/
theorem exists_namesake_parsers
    {outputDirectory? : Option String}
    (isKnown : outputDirectory? ∈ [none, some "out"]) :
    ∃ first second : GeneratedParser, first.text ≠ second.text ∧
      first.target = targetPath (namesakeOptions outputDirectory?) "a/g.json" (namesake "a" "1") ∧
      second.target = targetPath (namesakeOptions outputDirectory?) "b/g.json" (namesake "b" "2") ∧
      attempt (namesakeOptions outputDirectory?) {} namesakeFiles "a/g.json" = .ok first ∧
      attempt (namesakeOptions outputDirectory?) {} namesakeFiles "b/g.json" = .ok second ∧
      generatedParsers (namesakeOptions outputDirectory?) {} namesakeFiles
          ["a/g.json", "b/g.json"] = [first, second] := by
  obtain ⟨firstText, secondText, different, ofFirst, ofSecond⟩ := exists_namesake_texts
  have writable :
      namesakeFiles.writeError?
          (targetPath (namesakeOptions outputDirectory?) "a/g.json" (namesake "a" "1")) = none ∧
        namesakeFiles.writeError?
          (targetPath (namesakeOptions outputDirectory?) "b/g.json" (namesake "b" "2")) =
            none := by
    simp only [List.mem_cons, List.not_mem_nil, or_false] at isKnown
    rcases isKnown with rfl | rfl <;> decide +kernel
  have firstAttempt : attempt (namesakeOptions outputDirectory?) {} namesakeFiles "a/g.json" =
      .ok ⟨"a/g.json", _, firstText⟩ :=
    attempt_eq_ok_iff.mpr ⟨_, loadBundle_first, ofFirst, writable.1, rfl, rfl⟩
  have secondAttempt : attempt (namesakeOptions outputDirectory?) {} namesakeFiles "b/g.json" =
      .ok ⟨"b/g.json", _, secondText⟩ :=
    attempt_eq_ok_iff.mpr ⟨_, loadBundle_second, ofSecond, writable.2, rfl, rfl⟩
  have apart : TargetsApart (namesakeOptions outputDirectory?) {} namesakeFiles
      ["a/g.json", "b/g.json"] := (targetsApart_namesakes isKnown).mono (by simp)
  refine ⟨_, _, different, rfl, rfl, firstAttempt, secondAttempt, ?_⟩
  rw [generatedParsers, apart.attempts_eq_map]
  simp [firstAttempt, secondAttempt, Except.toOption]

/-- Without a common directory both parsers are kept. -/
theorem namesakes_keep_parsers :
    ∃ first second,
      attempt (namesakeOptions none) {} namesakeFiles "a/g.json" = .ok first ∧
      attempt (namesakeOptions none) {} namesakeFiles "b/g.json" = .ok second ∧
      ∀ parser ∈ [first, second],
        (generateAll (namesakeOptions none) {} namesakeFiles ["a/g.json", "b/g.json"]).files.text?
          parser.target = some parser.text := by
  obtain ⟨first, second, _, firstTarget, secondTarget, ofFirst, ofSecond, parsers⟩ :=
    exists_namesake_parsers List.mem_cons_self
  have kept := (targets_keep_last_parsers (namesakeOptions none) {} namesakeFiles
    ["a/g.json", "b/g.json"]).distinct
  rw [parsers] at kept
  refine ⟨first, second, ofFirst, ofSecond, kept ?_⟩
  rw [List.map_cons, List.map_singleton, firstTarget, secondTarget]
  decide +kernel

/-- In a common directory the second parser replaces the first one, and both are told to
be generated. -/
theorem parser_lost_at_shared_target :
    namesakeFiles.writeError? "out/G.g.cs" = none ∧
      (generateAll (namesakeOptions (some "out")) {} namesakeFiles
          ["a/g.json", "b/g.json"]).output =
        [generatedLine "a/g.json" "out/G.g.cs", generatedLine "b/g.json" "out/G.g.cs",
          summaryLine 2 0] ∧
      ∃ parser,
        attempt (namesakeOptions (some "out")) {} namesakeFiles "a/g.json" = .ok parser ∧
          parser.target = "out/G.g.cs" ∧
          (generateAll (namesakeOptions (some "out")) {} namesakeFiles
            ["a/g.json", "b/g.json"]).files.text? "out/G.g.cs" ≠ some parser.text := by
  obtain ⟨first, second, different, firstTarget, secondTarget, ofFirst, ofSecond, parsers⟩ :=
    exists_namesake_parsers (List.mem_cons_of_mem none List.mem_cons_self)
  have first_eq : first.target = "out/G.g.cs" := firstTarget.trans (by decide +kernel)
  have second_eq : second.target = "out/G.g.cs" := secondTarget.trans (by decide +kernel)
  refine ⟨by decide +kernel, ?_, first, ofFirst, first_eq, ?_⟩
  · obtain ⟨_, _, _, _, _, firstBundle⟩ := attempt_eq_ok_iff.mp ofFirst
    obtain ⟨_, _, _, _, _, secondBundle⟩ := attempt_eq_ok_iff.mp ofSecond
    have total := length_generatedParsers_add_failureReports (namesakeOptions (some "out")) {}
      namesakeFiles ["a/g.json", "b/g.json"]
    rw [parsers] at total
    have noFailure : (failureReports (namesakeOptions (some "out")) {} namesakeFiles
        ["a/g.json", "b/g.json"]).length = 0 := by simpa using total
    rw [output_generateAll, parsers, noFailure, List.map_cons, List.map_singleton,
      GeneratedParser.line, GeneratedParser.line, first_eq, second_eq, firstBundle, secondBundle]
    rfl
  · rw [files_generateAll, text?_foldl_storeParser, parsers]
    simp [lastParserAt?, first_eq, second_eq, different.symm]

end Program
end GrammarCompiler
