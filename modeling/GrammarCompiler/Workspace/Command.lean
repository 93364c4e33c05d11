import GrammarCompiler.Journal
import GrammarCompiler.Workspace.Footprint

/-!
# Workspaces

A workspace keeps trees and analyses under names while settings change.  The
passes leave memos behind in the trees they read, so what a node read first
stays what it says, whatever the source becomes.
-/

namespace GrammarCompiler

/-- Trees and analyses under names. -/
structure Workspace where
  settings : Settings := {}
  trees : List (String × Node) := []
  analyses : List (String × Analysis) := []
  /-- The number of the next node that enters the workspace. -/
  nextId : Nat := 1
  deriving Inhabited

/-- What can be done in a workspace. -/
inductive Command where
  /-- Replace the settings. -/
  | configure (settings : Settings)
  /-- Number the nodes of a tree and keep it. -/
  | keep (slot : String) (tree : Node)
  /-- Copy a tree with its numbers and memos. -/
  | copy (origin slot : String)
  | flatten (slot : String) (flattening : Flattening)
  /-- Analyze trees with one analyzer and keep the analysis. -/
  | analyze (slots : List String) (name : String)
  | isRule (analysis name : String)
  | generate (slot analysis : String)
  /-- Read the text of a node. -/
  | readText (slot : String) (path : Path) (source? : Option String)
  /-- Read the position of a node. -/
  | readPosition (slot : String) (path : Path) (source? : Option String)
  /-- Read the positions of a node and all nodes below it. -/
  | readPositions (slot : String) (path : Path) (source? : Option String)
  /-- Ask for the remembered positions. -/
  | recallPositions (slot : String) (path : Path)
  /-- Ask for a node. -/
  | find (slot : String) (path : Path)
  /-- Put a copy of another tree in the place of a node. -/
  | replace (slot : String) (path : Path) (origin : String)
  /-- Give a node the kind and the children of a copy of another tree. -/
  | reshape (slot : String) (path : Path) (origin : String)
  /-- Compare two trees. -/
  | compare (slot other : String)
  | display (slot : String)

/-- What a workspace answers. -/
inductive Reply where
  | done
  | tree (tree : Node)
  | node (node : Node)
  | text (text : String)
  | position (position : Nat × Nat)
  | positions (positions : List (Option (Nat × Nat)))
  | truth (value : Bool)
  /-- The outcome for each tree, the analysis, and the trees. -/
  | analysis (outcomes : List (Option Failure)) (analysis : Analysis) (trees : List Node)
  | failure (failure : Failure)
  /-- A name or a path leads nowhere. -/
  | missing

namespace Workspace

/-- The tree under a name. -/
def tree? (workspace : Workspace) (slot : String) : Option Node :=
  workspace.trees.lookup slot

/-- The analysis under a name. -/
def analysis? (workspace : Workspace) (name : String) : Option Analysis :=
  workspace.analyses.lookup name

/-- Keep a tree under a name. -/
def put (workspace : Workspace) (slot : String) (tree : Node) : Workspace :=
  { workspace with trees := (slot, tree) :: workspace.trees.filter (·.1 != slot) }

/-- Keep an analysis under a name. -/
def putAnalysis (workspace : Workspace) (name : String) (analysis : Analysis) : Workspace :=
  { workspace with analyses := (name, analysis) :: workspace.analyses.filter (·.1 != name) }

/-- Trees that are analyzed one after the other. -/
structure Run where
  workspace : Workspace
  analyzer : Analyzer := {}
  /-- The outcomes for the trees so far, the last one first. -/
  outcomes : List (Option Failure) := []
  events : List Event := []

/-- Analyze trees one after the other.  A tree that breaks the rules of
grammars does not stop the run, a text that cannot be read does. -/
def runAnalysis (run : Run) : List String → Run × Option Reply
  | [] => (run, none)
  | slot :: slots =>
      match run.workspace.tree? slot with
      | none => (run, some .missing)
      | some tree =>
          let source := run.workspace.settings.source
          let (analyzer, outcome) := run.analyzer.analyze source tree
          let next : Run :=
            { workspace := run.workspace.put slot (tree.touch source (Footprint.ofAnalysis tree))
              analyzer
              outcomes := outcome :: run.outcomes
              events := run.events ++ Journal.walkEvents source run.analyzer tree }
          match outcome with
          | some (.unreadable span) => (next, some (.failure (.unreadable span)))
          | _ => runAnalysis next slots

/-- Analyze trees and keep the analysis. -/
def analyze (workspace : Workspace) (slots : List String) (name : String) :
    Workspace × Reply × List Event :=
  match runAnalysis { workspace } slots with
  | (run, some reply) => (run.workspace, reply, run.events)
  | (run, none) =>
      let analysis := run.analyzer.finish
      (run.workspace.putAnalysis name analysis,
        .analysis run.outcomes.reverse analysis (slots.filterMap run.workspace.tree?),
        run.events ++ Journal.finishEvents analysis)

/-- Generate the text of a tree with an analysis. -/
def generate (workspace : Workspace) (slot name : String) : Workspace × Reply × List Event :=
  match workspace.tree? slot, workspace.analysis? name with
  | some tree, some analysis =>
      let settings := workspace.settings
      let footprint := Footprint.ofSynthesis settings analysis tree
      (workspace.put slot (tree.touch settings.source footprint),
        match GrammarCompiler.generate settings analysis tree with
        | .ok text => .text text
        | .error failure => .failure failure,
        Journal.generateEvents settings analysis tree)
  | _, _ => (workspace, .missing, [])

/-- Read something of a node and leave what reading leaves behind. -/
def readNode (workspace : Workspace) (slot : String) (path : Path)
    (answer : Node → Reply) (remember : Node → Node) : Workspace × Reply × List Event :=
  match workspace.tree? slot with
  | none => (workspace, .missing, [])
  | some tree =>
      match tree.at? path with
      | none => (workspace, .missing, [])
      | some node => (workspace.put slot (tree.modifyAt remember path), answer node, [])

/-- Change a node with the help of another tree. -/
def changeNode (workspace : Workspace) (slot : String) (path : Path) (origin : String)
    (change : Node → Node → Node) : Workspace × Reply × List Event :=
  match workspace.tree? slot, workspace.tree? origin with
  | some tree, some other =>
      let changed := tree.modifyAt (change other) path
      (workspace.put slot changed, .tree changed, [])
  | _, _ => (workspace, .missing, [])

/-- The text of a node as an answer. -/
def textReply (source : String) (node : Node) : Reply :=
  match node.text? source with
  | some text => .text text
  | none => .failure (.unreadable node.span)

/-- Carry out a command. -/
def run (workspace : Workspace) : Command → Workspace × Reply × List Event
  | .configure settings => ({ workspace with settings }, .done, [])
  | .keep slot tree =>
      let numbered := tree.numbered workspace.nextId
      ({ workspace.put slot numbered with nextId := workspace.nextId + tree.size },
        .tree numbered, [])
  | .copy origin slot =>
      match workspace.tree? origin with
      | some tree => (workspace.put slot tree, .done, [])
      | none => (workspace, .missing, [])
  | .flatten slot flattening =>
      match workspace.tree? slot with
      | some tree =>
          let flat := tree.flatten flattening
          (workspace.put slot flat, .tree flat, Journal.flattenEvents flattening tree)
      | none => (workspace, .missing, [])
  | .analyze slots name => workspace.analyze slots name
  | .isRule name rule =>
      match workspace.analysis? name with
      | some analysis => (workspace, .truth (analysis.isRule rule), [])
      | none => (workspace, .missing, [])
  | .generate slot name => workspace.generate slot name
  | .readText slot path source? =>
      let source := source?.getD workspace.settings.source
      workspace.readNode slot path (textReply source) (Node.rememberText source)
  | .readPosition slot path source? =>
      let source := source?.getD workspace.settings.source
      workspace.readNode slot path (fun node => .position (node.position source))
        (Node.rememberPosition source)
  | .readPositions slot path source? =>
      let source := source?.getD workspace.settings.source
      workspace.readNode slot path (fun _ => .done) (Node.rememberPositions source)
  | .recallPositions slot path =>
      workspace.readNode slot path (fun node => .positions node.rememberedPositions)
        fun node => node
  | .find slot path => workspace.readNode slot path .node fun node => node
  | .replace slot path origin => workspace.changeNode slot path origin fun other _ => other
  | .reshape slot path origin =>
      workspace.changeNode slot path origin fun other node => other.withTag node.tag
  | .compare slot other =>
      match workspace.tree? slot, workspace.tree? other with
      | some left, some right => (workspace, .truth (left.alike right), [])
      | _, _ => (workspace, .missing, [])
  | .display slot =>
      match workspace.tree? slot with
      | some tree => (workspace, .tree tree, [])
      | none => (workspace, .missing, [])

end Workspace
end GrammarCompiler
