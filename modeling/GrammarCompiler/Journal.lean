import GrammarCompiler.Synthesis.Synthesize

/-!
# The journal

What the passes report about their progress.  A pass that fails has reported
what it did before.
-/

namespace GrammarCompiler

/-- A report of progress. -/
inductive Event where
  /-- A rule name was met for the first time. -/
  | nameRegistered (name : String)
  /-- A grammar defines no rules. -/
  | grammarWithoutRules (className : String)
  /-- A grammar was walked. -/
  | grammarWalked (className : String) (names definitions : Nat)
  /-- A rule was settled. -/
  | ruleSettled (className rule : String) (alternatives : Nat) (isCacheable : Bool)
  /-- Only some definitions of a rule are overriding. -/
  | mixedOverride (className rule : String)
  /-- A file was analyzed. -/
  | analyzed (grammars names : Nat)
  /-- A tree was flattened. -/
  | flattened (removed : Nat)
  /-- A matcher function was generated. -/
  | functionGenerated (className rule : String) (alternatives : Nat) (isCached : Bool)
  /-- A matcher class was generated. -/
  | classGenerated (className : String) (rules : Nat)
  deriving DecidableEq

namespace Event

/-- The level at which an event is reported. -/
def level : Event → String
  | .nameRegistered _ | .flattened _ => "TRACE"
  | .grammarWalked _ _ _ | .ruleSettled _ _ _ _ | .functionGenerated _ _ _ _ => "DEBUG"
  | .analyzed _ _ | .classGenerated _ _ => "INFO"
  | .grammarWithoutRules _ | .mixedOverride _ _ => "WARN"

/-- The message of an event. -/
def message : Event → String
  | .nameRegistered name => "rule name `" ++ name ++ "` registered"
  | .grammarWithoutRules className =>
      "grammar `" ++ className ++
        "` defines no rules; its class will have no matcher functions"
  | .grammarWalked className names definitions =>
      "grammar `" ++ className ++ "`: " ++ names.repr ++ " rule name(s), " ++
        definitions.repr ++ " definition(s)"
  | .ruleSettled className rule alternatives isCacheable =>
      className ++ "." ++ rule ++ ": " ++ alternatives.repr ++
        " alternative(s), cacheable = " ++ (if isCacheable then "true" else "false")
  | .mixedOverride className rule =>
      className ++ "." ++ rule ++
        ": some definitions are marked override and some are not; " ++
        "the rule is emitted as an override"
  | .analyzed grammars names =>
      "analyzed " ++ grammars.repr ++ " grammar(s), " ++ names.repr ++ " rule name(s)"
  | .flattened removed => "flattening removed " ++ removed.repr ++ " node(s)"
  | .functionGenerated className rule alternatives isCached =>
      "emitted " ++ className ++ "." ++ rule ++ " (" ++ alternatives.repr ++
        " alternative(s), " ++ (if isCached then "cached" else "per call") ++ ")"
  | .classGenerated className rules =>
      "generated class " ++ className ++ " with " ++ rules.repr ++ " rule(s)"

/-- The line of an event. -/
def text (event : Event) : String :=
  event.level ++ " " ++ event.message

end Event

namespace Journal

/-- The events of a grammar that was walked to its end. -/
def walkedEvents (grammar : GrammarAnalysis) : List Event :=
  let className := grammar.declaration.className
  (if grammar.rules.isEmpty then [.grammarWithoutRules className] else []) ++
    [.grammarWalked className grammar.rules.size grammar.rules.definitionCount]

/-- The events of walking one grammar. -/
def grammarEvents (source : String) (known : NameSet) (node : Node) : List Event :=
  let (ruleNames, outcome) := Analyzer.walkGrammar source known node
  (ruleNames.toList.drop known.size).map .nameRegistered ++
    match outcome with
    | .ok grammar => walkedEvents grammar
    | .error _ => []

/-- The events of walking grammars in order up to the first failure. -/
def grammarsEvents (source : String) (known : NameSet) : List Node → List Event
  | [] => []
  | node :: nodes =>
      grammarEvents source known node ++
        match Analyzer.walkGrammar source known node with
        | (ruleNames, .ok _) => grammarsEvents source ruleNames nodes
        | (_, .error _) => []

/-- The events of walking the tree of a file. -/
def walkEvents (source : String) (analyzer : Analyzer) : Node → List Event
  | .file _ preamble grammars =>
      match Analyzer.importedBy source preamble with
      | .ok _ => grammarsEvents source analyzer.ruleNames grammars
      | .error _ => []
  | _ => []

/-- The events of settling a rule. -/
def settledEvents (className : String) (set : AlternativeSet) : List Event :=
  .ruleSettled className set.name set.alternatives.length set.isCacheable ::
    if set.isMixed then [.mixedOverride className set.name] else []

/-- The events of finishing an analysis. -/
def finishEvents (analysis : Analysis) : List Event :=
  (analysis.grammars.flatMap fun grammar =>
    grammar.rules.sets.flatMap (settledEvents grammar.declaration.className)) ++
    [.analyzed analysis.grammars.length analysis.ruleNames.size]

/-- The events of analyzing one tree. -/
def analyzeEvents (source : String) (tree : Node) : List Event :=
  walkEvents source {} tree ++
    match analyze source tree with
    | .ok analysis => finishEvents analysis
    | .error _ => []

/-- The events of flattening a tree. -/
def flattenEvents (flattening : Flattening) (tree : Node) : List Event :=
  if flattening.choices && flattening.sequences then
    [.flattened (tree.removedBy flattening)]
  else []

/-- The events of generating matcher functions up to the first failure, and
then the event of the class. -/
def functionsEvents (source : String) (analysis : Analysis)
    (rules : List Synthesis.RuleNode) (grammar : GrammarAnalysis) :
    List AlternativeSet → List Event
  | [] => [.classGenerated grammar.declaration.className grammar.rules.size]
  | set :: sets =>
      match Synthesis.matcherFunction source analysis rules set with
      | .ok function =>
          .functionGenerated grammar.declaration.className set.name set.alternatives.length
              function.isCached ::
            functionsEvents source analysis rules grammar sets
      | .error _ => []

/-- The events of generating matcher classes up to the first failure. -/
def classesEvents (source : String) (analysis : Analysis) : List Node → List Event
  | [] => []
  | node :: nodes =>
      match analysis.grammar? node.id with
      | none => []
      | some grammar =>
          functionsEvents source analysis (Synthesis.ruleNodes node) grammar
              grammar.rules.sets ++
            match Synthesis.matcherClass source analysis node with
            | .ok _ => classesEvents source analysis nodes
            | .error _ => []

/-- The events of generating a file. -/
def generateEvents (settings : Settings) (analysis : Analysis) (tree : Node) : List Event :=
  match settings.requireNamespace, tree with
  | .ok _, .file _ preamble grammars =>
      match preamble.mapM (Synthesis.preambleLine settings.source) with
      | .ok _ => classesEvents settings.source analysis grammars
      | .error _ => []
  | _, _ => []

/-- The events of compiling a tree. -/
def compileEvents (settings : Settings) (tree : Node) : List Event :=
  analyzeEvents settings.source tree ++
    match analyze settings.source tree with
    | .ok analysis =>
        flattenEvents .ofAll tree ++ generateEvents settings analysis tree.optimize
    | .error _ => []

end Journal
end GrammarCompiler
