import GrammarCompiler.Position

/-!
# Diagnostics

What the compiler tells its user when it cannot go on, and the one-line forms
in which it is written.
-/

namespace GrammarCompiler

/-- How serious a diagnostic is. -/
inductive Severity where
  | info
  | warning
  | error
  | critical
  deriving DecidableEq, Inhabited

namespace Severity

/-- The name written into reports. -/
def name : Severity → String
  | .info => "INFO"
  | .warning => "WARNING"
  | .error => "ERROR"
  | .critical => "CRITICAL"

end Severity

/-- What the reader of a format says about a text that it rejects. -/
structure ReaderComplaint where
  line : Nat
  column : Nat
  text : String
  deriving DecidableEq, Inhabited

/-- A diagnostic. -/
inductive Diagnostic where
  /-- A tree breaks a rule of grammar declarations. -/
  | semantic (severity : Severity) (message issuer : String)
      (location? : Option Location) (span? : Option Span)
  /-- A text is not a grammar tree. -/
  | malformed (severity : Severity) (message issuer : String)
      (index : Nat) (location? : Option Location)
  /-- The parts of the pipeline were put together wrongly. -/
  | contract (message issuer : String)
  /-- The generated text could not be written to its target. -/
  | output (reason target : String)
  deriving DecidableEq

namespace Diagnostic

/-- The issuer of complaints about malformed trees. -/
def treeIssuer : String := "metagen.ast"

/-- The issuer of complaints about failed output. -/
def outputIssuer : String := "metagen.codegen.output"

/-- A text that is not a tree, with the offset of the offending part. -/
def malformedAt (index : Nat) (message : String) : Diagnostic :=
  .malformed .error message treeIssuer index none

/-- A text in which a reader found no tree or no bundle. -/
def rejected (content : String) (complaint : ReaderComplaint) : Diagnostic :=
  malformedAt 0
    ("malformed grammar " ++ content ++ " at line " ++ complaint.line.repr ++ " column " ++
      complaint.column.repr ++ ": " ++ complaint.text)

def severity : Diagnostic → Severity
  | .semantic severity _ _ _ _ => severity
  | .malformed severity _ _ _ _ => severity
  | .contract _ _ => .critical
  | .output _ _ => .error

def message : Diagnostic → String
  | .semantic _ message _ _ _ => message
  | .malformed _ message _ _ _ => message
  | .contract message _ => message
  | .output reason target =>
      "failed to write generated parser for " ++ target ++ ": " ++ reason

def issuer : Diagnostic → String
  | .semantic _ _ issuer _ _ => issuer
  | .malformed _ _ issuer _ _ => issuer
  | .contract _ issuer => issuer
  | .output _ _ => outputIssuer

def span? : Diagnostic → Option Span
  | .semantic _ _ _ _ span? => span?
  | .malformed _ _ _ index _ => some { start := index, next := index }
  | .contract _ _ => none
  | .output _ _ => none

def location? : Diagnostic → Option Location
  | .semantic _ _ _ location? _ => location?
  | .malformed _ _ _ _ location? => location?
  | .contract _ _ => none
  | .output _ _ => none

/-- The source offset of the offending text, where there is one. -/
def index? : Diagnostic → Option Nat
  | .semantic _ _ _ _ span? => some ((span?.map Span.start).getD 0)
  | .malformed _ _ _ index _ => some index
  | .contract _ _ => none
  | .output _ _ => none

/-- The complaint of the file system behind a failed output. -/
def cause? : Diagnostic → Option String
  | .output reason _ => some reason
  | _ => none

/-- The report for the user: severity, location and message. -/
def report (diagnostic : Diagnostic) : String :=
  "METAGEN | " ++ diagnostic.severity.name ++ " | " ++
    (diagnostic.location?.map Location.text).getD "unknown location" ++ " | " ++
    diagnostic.message

/-- The full form: severity, location, issuer, span and message. -/
def fullReport (diagnostic : Diagnostic) : String :=
  "METAGEN | " ++ diagnostic.severity.name ++ " | " ++
    (diagnostic.location?.map Location.text).getD "unknown" ++ " | " ++
    diagnostic.issuer ++ " | " ++
    (diagnostic.span?.map Span.text).getD "span:none" ++ " | " ++
    diagnostic.message

/-- The short form: the message and, for complaints about a text, its place. -/
def summary (diagnostic : Diagnostic) : String :=
  match diagnostic with
  | .semantic _ message _ (some location) _ => message ++ " at " ++ location.text
  | .semantic _ message _ none span? =>
      message ++ " at offset " ++ ((span?.map Span.start).getD 0).repr
  | .malformed _ message _ _ (some location) => message ++ " (at " ++ location.text ++ ")"
  | .malformed _ message _ index none => message ++ " (at offset " ++ index.repr ++ ")"
  | .contract message _ => message
  | .output _ _ => diagnostic.message

end Diagnostic
end GrammarCompiler
