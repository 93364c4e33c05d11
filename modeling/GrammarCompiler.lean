import GrammarCompiler.Text.Blank
import GrammarCompiler.Text.Line
import GrammarCompiler.Text.Search
import GrammarCompiler.NameSet
import GrammarCompiler.Settings
import GrammarCompiler.Timestamp
import GrammarCompiler.Diagnostic
import GrammarCompiler.Tree.Kind
import GrammarCompiler.Json.Reader
import GrammarCompiler.Json.Writer
import GrammarCompiler.Tree.Node
import GrammarCompiler.Tree.Path
import GrammarCompiler.Tree.Flatten
import GrammarCompiler.Tree.Display
import GrammarCompiler.Tree.Interchange
import GrammarCompiler.Tree.Builder
import GrammarCompiler.Bundle
import GrammarCompiler.Failure
import GrammarCompiler.Analysis.Analyzer
import GrammarCompiler.Synthesis.Synthesize
import GrammarCompiler.Sink
import GrammarCompiler.Journal
import GrammarCompiler.Workspace.Command
import GrammarCompiler.CommandLine.Program
import GrammarCompiler.Main
import GrammarCompiler.Proofs.Denotation
import GrammarCompiler.Proofs.AnalysisInvariance
import GrammarCompiler.Proofs.NameClassification
import GrammarCompiler.Proofs.ExpressionSynthesis
import GrammarCompiler.Proofs.SynthesisCompleteness
import GrammarCompiler.Proofs.WalkOrder
import GrammarCompiler.Proofs.Acceptance
import GrammarCompiler.Proofs.SynthesisOutcome
import GrammarCompiler.Proofs.PerCallValues
import GrammarCompiler.Proofs.SlotDeclarations
import GrammarCompiler.Proofs.CachedCombinators
import GrammarCompiler.Proofs.GeneratedRules
import GrammarCompiler.Proofs.Lexemes
import GrammarCompiler.Proofs.WrittenJson
import GrammarCompiler.Proofs.InterchangeRoundTrip
import GrammarCompiler.Proofs.SourceSlices
import GrammarCompiler.Proofs.PanicFreedom
import GrammarCompiler.Proofs.DeclarationOrder
import GrammarCompiler.Proofs.FileExtension
import GrammarCompiler.Proofs.AnalyzerRuns
import GrammarCompiler.Proofs.CallArguments
import GrammarCompiler.Proofs.Renumbering
import GrammarCompiler.Proofs.MemoTransparency
import GrammarCompiler.Proofs.RedundantGroups
import GrammarCompiler.Proofs.BundleIsolation
import GrammarCompiler.Proofs.Cacheability
import GrammarCompiler.Proofs.SinkDelivery
import GrammarCompiler.Proofs.EmbeddedCode
import GrammarCompiler.Proofs.NestedOutput
import GrammarCompiler.Proofs.SourceLines
import GrammarCompiler.Proofs.PositionCode
import GrammarCompiler.Proofs.CanonicalSpelling
import GrammarCompiler.Proofs.ActionReturns
