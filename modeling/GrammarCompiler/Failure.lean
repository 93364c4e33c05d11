import GrammarCompiler.Diagnostic
import GrammarCompiler.Settings
import GrammarCompiler.Text.Blank
import GrammarCompiler.Tree.Reading

/-!
# Failures of the passes

A tree may break a rule of grammars, the passes may be put together wrongly,
or the text of a node may be asked for that the source does not have.
-/

namespace GrammarCompiler

/-- How a tree breaks the rules of grammars. -/
inductive Violation where
  /-- The root is not a file. -/
  | rootNotFile (found : Kind)
  /-- A member of the grammars of a file is not a grammar. -/
  | notGrammar (found : Kind)
  /-- The header of a grammar is not a declaration. -/
  | notDeclaration (found : Kind)
  /-- A declaration gives no input and result types. -/
  | untyped (grammar : String)
  /-- A node stands in a rule body that is not an expression. -/
  | misplaced (found : Kind)
  deriving DecidableEq

namespace Violation

/-- The message of a violation. -/
def message : Violation → String
  | .rootNotFile found => "Expected a File node at the root, found " ++ found.name ++ "."
  | .notGrammar found => "Expected a Grammar node, found " ++ found.name ++ "."
  | .notDeclaration found => "Expected a GrammarDecl node, found " ++ found.name ++ "."
  | .untyped grammar =>
      grammar ++ ": a grammar declaration must include input and result types " ++
        "(directly or through an explicit generic base)."
  | .misplaced found => "Unexpected " ++ found.name ++ " node inside a rule body."

/-- The part of the analysis that reports a violation. -/
def issuer : Violation → String
  | .rootNotFile _ => "metagen.analyzers.semantic.analyzer"
  | .notGrammar _ | .notDeclaration _ | .untyped _ => "metagen.analyzers.semantic.decl"
  | .misplaced _ => "metagen.analyzers.semantic.expr"

end Violation

/-- How the passes are put together wrongly. -/
inductive Breach where
  /-- No namespace, or a blank one, was given. -/
  | missingNamespace
  /-- The root is not a file. -/
  | rootNotFile (found : Kind)
  /-- The analysis does not know a grammar. -/
  | grammarNotAnalyzed (offset : Nat)
  /-- The analysis does not know an identifier. -/
  | unclassifiedIdentifier (name : String) (offset : Nat)
  /-- The analysis does not know an argument of a call. -/
  | unclassifiedArgument (text : String) (offset : Nat)
  /-- A node stands in an expression that is none. -/
  | misplaced (found : Kind) (offset : Nat)
  /-- A definition of a rule is not in the tree. -/
  | definitionMissing (index : Nat) (rule : String)
  /-- A rule has no definitions. -/
  | noDefinitions (rule : String)
  deriving DecidableEq

namespace Breach

/-- The message of a breach. -/
def message : Breach → String
  | .missingNamespace => "calling code must assign a namespace before generating"
  | .rootNotFile found => "expected a File node at the root, found " ++ found.name
  | .grammarNotAnalyzed offset => "grammar at offset " ++ offset.repr ++ " was not analyzed"
  | .unclassifiedIdentifier name offset =>
      "identifier `" ++ name ++ "` at offset " ++ offset.repr ++
        " was not classified by analysis"
  | .unclassifiedArgument text offset =>
      "rule argument `" ++ text ++ "` at offset " ++ offset.repr ++
        " was not classified by analysis"
  | .misplaced found offset =>
      found.name ++ " node at offset " ++ offset.repr ++ " cannot appear in an expression"
  | .definitionMissing index rule =>
      "definition #" ++ index.repr ++ " of rule `" ++ rule ++
        "` is missing from the grammar tree"
  | .noDefinitions rule => "rule `" ++ rule ++ "` has no definitions"

/-- The part of the synthesis that reports a breach. -/
def issuer : Breach → String
  | .missingNamespace => "metagen.info.require_namespace"
  | .rootNotFile _ | .grammarNotAnalyzed _ => "metagen.codegen.file"
  | .unclassifiedIdentifier _ _ | .unclassifiedArgument _ _ => "metagen.codegen.context"
  | .misplaced _ _ => "metagen.codegen.expr"
  | .definitionMissing _ _ | .noDefinitions _ => "metagen.codegen.rule"

/-- The diagnostic of a breach. -/
def diagnostic (breach : Breach) : Diagnostic :=
  .contract breach.message breach.issuer

end Breach

/-- Why a pass fails. -/
inductive Failure where
  /-- A node breaks the rules of grammars. -/
  | violation (cause : Violation) (span : Span)
  /-- The passes are put together wrongly. -/
  | breach (cause : Breach)
  /-- A text is read whose span does not fit the source. -/
  | unreadable (span : Span)
  deriving DecidableEq

namespace Failure

/-- The diagnostic of a failure.  There is none for a text that the source
does not have: callers promise that spans fit. -/
def diagnostic? (settings : Settings) : Failure → Option Diagnostic
  | .violation cause span =>
      some (.semantic .error cause.message cause.issuer
        (some (settings.locationOf span.start)) (some span))
  | .breach cause => some cause.diagnostic
  | .unreadable _ => none

end Failure

namespace Tag

/-- The text under a tag. -/
def read (source : String) (tag : Tag) : Except Failure String :=
  match tag.text? source with
  | some text => .ok text
  | none => .error (.unreadable tag.span)

/-- The text under a tag without blanks around it. -/
def readTrimmed (source : String) (tag : Tag) : Except Failure String :=
  (tag.read source).map Text.trim

end Tag

namespace Settings

/-- The namespace, which must not be blank. -/
def requireNamespace (settings : Settings) : Except Failure String :=
  match settings.namespaceName? with
  | some name =>
      if Text.isAllBlank name then .error (.breach .missingNamespace) else .ok name
  | none => .error (.breach .missingNamespace)

end Settings
end GrammarCompiler
