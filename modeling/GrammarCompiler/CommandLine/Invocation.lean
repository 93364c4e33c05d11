import GrammarCompiler.Settings

/-!
# Command line arguments

The program has two subcommands.  Options may stand before, between and after
the paths; everything after `--` is a path.
-/

namespace GrammarCompiler

/-- The options of the subcommand that generates. -/
structure GenerateOptions where
  /-- The namespace of the generated classes. -/
  namespaceName : String
  /-- The directory for generated files; by default that of each bundle. -/
  outputDirectory? : Option String := none
  mode : ChoiceMode := .runtime
  deriving Inhabited

/-- What the program is asked to do. -/
inductive Invocation where
  | version
  | help
  | generate (bundles : List String) (options : GenerateOptions)
  | inspect (bundle : String)

namespace Invocation

/-- The options that take a value. -/
inductive ValueOption where
  | namespaceName
  | outputDirectory
  | mode
  deriving DecidableEq

/-- An option of a subcommand. -/
inductive CommandOption where
  | verbose
  | help
  | value (option : ValueOption)
  deriving DecidableEq

/-- What was read of the arguments of a subcommand. -/
structure Gathered where
  paths : List String := []
  namespaceName? : Option String := none
  outputDirectory? : Option String := none
  mode? : Option ChoiceMode := none
  /-- Help was asked for. -/
  wantsHelp : Bool := false

/-- The options of a subcommand; only the one that generates has options with
values. -/
structure Dialect where
  hasValueOptions : Bool

namespace Dialect

/-- The option of a letter. -/
def ofLetter? (dialect : Dialect) (letter : Char) : Option CommandOption :=
  if letter = 'v' then some .verbose
  else if letter = 'h' then some .help
  else if dialect.hasValueOptions = false then none
  else if letter = 'n' then some (.value .namespaceName)
  else if letter = 'o' then some (.value .outputDirectory)
  else if letter = 'm' then some (.value .mode)
  else none

/-- The option of a long name. -/
def ofName? (dialect : Dialect) (name : String) : Option CommandOption :=
  if name = "verbose" then some .verbose
  else if name = "help" then some .help
  else if dialect.hasValueOptions = false then none
  else if name = "namespace" then some (.value .namespaceName)
  else if name = "out-dir" then some (.value .outputDirectory)
  else if name = "mode" then some (.value .mode)
  else none

end Dialect

namespace Gathered

/-- Add a path, which must not be empty. -/
def addPath? (gathered : Gathered) (path : String) : Option Gathered :=
  if path = "" then none else some { gathered with paths := gathered.paths ++ [path] }

/-- Set the value of an option, which may be set only once. -/
def setValue? (gathered : Gathered) (option : ValueOption) (value : String) :
    Option Gathered :=
  match option with
  | .namespaceName =>
      if gathered.namespaceName?.isSome then none
      else some { gathered with namespaceName? := some value }
  | .outputDirectory =>
      if gathered.outputDirectory?.isSome || value = "" then none
      else some { gathered with outputDirectory? := some value }
  | .mode =>
      if gathered.mode?.isSome then none
      else (ChoiceMode.ofSpelling? value).map fun mode => { gathered with mode? := some mode }

end Gathered

/-- An argument that can be the value of an option or a path: it does not
begin with a hyphen, or is one. -/
def isPlain (argument : String) : Bool :=
  argument.toList.head? != some '-' || argument = "-"

/-- What a cluster of letters leaves to be done. -/
inductive ClusterEnd where
  /-- Nothing. -/
  | closed (gathered : Gathered)
  /-- The value of the last option is the next argument. -/
  | awaits (gathered : Gathered) (option : ValueOption)

/-- Read a cluster of letters.  The rest after an option with a value is that
value; an equals sign before it is dropped. -/
def readCluster (dialect : Dialect) (gathered : Gathered) : List Char → Option ClusterEnd
  | [] => some (.closed gathered)
  | letter :: letters =>
      match dialect.ofLetter? letter with
      | none => none
      | some .verbose => readCluster dialect gathered letters
      | some .help => some (.closed { gathered with wantsHelp := true })
      | some (.value option) =>
          match letters with
          | [] => some (.awaits gathered option)
          | '=' :: value =>
              (gathered.setValue? option (String.ofList value)).map .closed
          | value => (gathered.setValue? option (String.ofList value)).map .closed

/-- A long option: its name and its value, if one is attached. -/
def splitLong (chars : List Char) : String × Option String :=
  match chars.span (· != '=') with
  | (name, _ :: value) => (String.ofList name, some (String.ofList value))
  | (name, []) => (String.ofList name, none)

/-- Read a long option. -/
def readLong (dialect : Dialect) (gathered : Gathered) (chars : List Char) :
    Option ClusterEnd :=
  match splitLong chars with
  | (name, value?) =>
      match dialect.ofName? name, value? with
      | some .verbose, none => some (.closed gathered)
      | some .help, none => some (.closed { gathered with wantsHelp := true })
      | some (.value option), none => some (.awaits gathered option)
      | some (.value option), some value => (gathered.setValue? option value).map .closed
      | _, _ => none

/-- Read the arguments of a subcommand.  `awaited?` is the option whose value
the next argument must be. -/
def gather (dialect : Dialect) (awaited? : Option ValueOption) (gathered : Gathered) :
    List String → Option Gathered
  | [] => if awaited?.isSome then none else some gathered
  | argument :: arguments =>
      if gathered.wantsHelp then some gathered
      else
        match awaited? with
        | some option =>
            if isPlain argument then
              (gathered.setValue? option argument).bind
                fun gathered => gather dialect none gathered arguments
            else none
        | none =>
            if isPlain argument then
              (gathered.addPath? argument).bind
                fun gathered => gather dialect none gathered arguments
            else if argument = "--" then arguments.foldlM Gathered.addPath? gathered
            else
              let read :=
                match argument.toList with
                | '-' :: '-' :: chars => readLong dialect gathered chars
                | _ :: letters => readCluster dialect gathered letters
                | [] => none
              match read with
              | none => none
              | some (.closed gathered) => gather dialect none gathered arguments
              | some (.awaits gathered option) => gather dialect (some option) gathered arguments

/-- The request of the subcommand that generates. -/
def generateRequest? (arguments : List String) : Option Invocation := do
  let gathered ← gather { hasValueOptions := true } none {} arguments
  if gathered.wantsHelp then return .help
  let namespaceName ← gathered.namespaceName?
  guard !gathered.paths.isEmpty
  return .generate gathered.paths
    { namespaceName
      outputDirectory? := gathered.outputDirectory?
      mode := gathered.mode?.getD .runtime }

/-- The request of the subcommand that inspects. -/
def inspectRequest? (arguments : List String) : Option Invocation := do
  let gathered ← gather { hasValueOptions := false } none {} arguments
  if gathered.wantsHelp then return .help
  match gathered.paths with
  | [path] => return .inspect path
  | _ => none

/-- The request for help about the program or about one of its subcommands. -/
def helpRequest? : List String → Option Invocation
  | [] => some .help
  | [subcommand] => if subcommand ∈ ["generate", "inspect", "help"] then some .help else none
  | _ => none

/-- Read a cluster of letters before the subcommand: the request that it makes
at once, if any. -/
def topCluster : List Char → Option (Option Invocation)
  | [] => some none
  | 'v' :: letters => topCluster letters
  | 'V' :: _ => some (some .version)
  | 'h' :: _ => some (some .help)
  | _ => none

/-- Read an option before the subcommand: the request that it makes at once,
if any. -/
def topOption (argument : String) : Option (Option Invocation) :=
  if argument = "--verbose" then some none
  else if argument = "--version" then some (some .version)
  else if argument = "--help" then some (some .help)
  else
    match argument.toList with
    | '-' :: '-' :: _ => none
    | '-' :: letter :: letters => topCluster (letter :: letters)
    | _ => none

/-- The request that the arguments of the program make; none if they are
rejected. -/
def ofArguments? : List String → Option Invocation
  | [] => none
  | "generate" :: arguments => generateRequest? arguments
  | "inspect" :: arguments => inspectRequest? arguments
  | "help" :: arguments => helpRequest? arguments
  | argument :: arguments =>
      match topOption argument with
      | none => none
      | some (some invocation) => some invocation
      | some none => ofArguments? arguments

end Invocation
end GrammarCompiler
