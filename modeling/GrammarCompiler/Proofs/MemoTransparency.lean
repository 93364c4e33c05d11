import GrammarCompiler.Proofs.Remembering
import GrammarCompiler.Workspace.Command

/-!
# Memos are transparent

The plain way to carry out a command cuts every text out of the source, locates every
position in it, and leaves no memo behind.  While all commands keep to one source, the
memos of a workspace stay true to it, and the workspace without its memos goes the plain
way to the same answers.
-/

namespace GrammarCompiler

/-- A command that brings neither memos nor another source into a workspace. -/
def Command.KeepsTo (source : String) : Command → Prop
  | .configure settings => settings.source = source
  | .keep _ tree => tree.RemembersNothing
  | .readText _ _ source? | .readPosition _ _ source? | .readPositions _ _ source? =>
      ∀ other ∈ source?, other = source
  | _ => True

instance (source : String) : (command : Command) → Decidable (command.KeepsTo source)
  | .configure settings => inferInstanceAs (Decidable (settings.source = source))
  | .keep _ tree => inferInstanceAs (Decidable tree.RemembersNothing)
  | .readText _ _ source? | .readPosition _ _ source? | .readPositions _ _ source? =>
      inferInstanceAs (Decidable (∀ other ∈ source?, other = source))
  | .copy _ _ | .flatten _ _ | .analyze _ _ | .isRule _ _ | .generate _ _
  | .recallPositions _ _ | .find _ _ | .replace _ _ _ | .reshape _ _ _ | .compare _ _
  | .display _ => inferInstanceAs (Decidable True)

/-- The same answer without memos. -/
def Reply.forget : Reply → Reply
  | .tree root => .tree root.forget
  | .node inner => .node inner.forget
  | .positions remembered => .positions (remembered.map fun _ => none)
  | .analysis outcomes tables trees => .analysis outcomes tables (trees.map Node.forget)
  | reply => reply

namespace Workspace

/-- The same workspace without memos. -/
def forget (workspace : Workspace) : Workspace :=
  { workspace with trees := workspace.trees.map fun (slot, tree) => (slot, tree.forget) }

/-! ## Commands without memos -/

/-- The text of a node as an answer, cut out of the source. -/
def slicedReply (source : String) (node : Node) : Reply :=
  match Text.slice? source node.span with
  | some text => .text text
  | none => .failure (.unreadable node.span)

/-- Analyze trees one after the other without memos. -/
def runAnalysisPlain (run : Run) : List String → Run × Option Reply
  | [] => (run, none)
  | slot :: slots =>
      match run.workspace.tree? slot with
      | none => (run, some .missing)
      | some tree =>
          let source := run.workspace.settings.source
          let (analyzer, outcome) := run.analyzer.analyze source tree.forget
          let next : Run :=
            { workspace := run.workspace.put slot tree.forget
              analyzer
              outcomes := outcome :: run.outcomes
              events := run.events ++ Journal.walkEvents source run.analyzer tree.forget }
          match outcome with
          | some (.unreadable span) => (next, some (.failure (.unreadable span)))
          | _ => runAnalysisPlain next slots

/-- Analyze trees without memos and keep the analysis. -/
def analyzePlain (workspace : Workspace) (slots : List String) (name : String) :
    Workspace × Reply × List Event :=
  match runAnalysisPlain { workspace } slots with
  | (run, some reply) => (run.workspace, reply, run.events)
  | (run, none) =>
      let analysis := run.analyzer.finish
      (run.workspace.putAnalysis name analysis,
        .analysis run.outcomes.reverse analysis (slots.filterMap run.workspace.tree?),
        run.events ++ Journal.finishEvents analysis)

/-- Generate the text of a tree without memos. -/
def generatePlain (workspace : Workspace) (slot name : String) :
    Workspace × Reply × List Event :=
  match workspace.tree? slot, workspace.analysis? name with
  | some tree, some analysis =>
      (workspace.put slot tree.forget,
        match GrammarCompiler.generate workspace.settings analysis tree.forget with
        | .ok text => .text text
        | .error failure => .failure failure,
        Journal.generateEvents workspace.settings analysis tree.forget)
  | _, _ => (workspace, .missing, [])

/-- Carry out a command without memos. -/
def runPlain (workspace : Workspace) : Command → Workspace × Reply × List Event
  | .analyze slots name => workspace.analyzePlain slots name
  | .generate slot name => workspace.generatePlain slot name
  | .readText slot path source? =>
      let source := source?.getD workspace.settings.source
      workspace.readNode slot path (slicedReply source) fun node => node
  | .readPosition slot path source? =>
      let source := source?.getD workspace.settings.source
      workspace.readNode slot path
        (fun node => .position (Text.locate source node.span.start)) fun node => node
  | .readPositions slot path _ => workspace.readNode slot path (fun _ => .done) fun node => node
  | command => workspace.run command

/-- What commands lead to one after the other, carried out in a given way. -/
def trace
    (way : Workspace → Command → Workspace × Reply × List Event)
    (workspace : Workspace) : List Command → List (Workspace × Reply × List Event)
  | [] => []
  | command :: commands =>
      let result := way workspace command
      result :: trace way result.1 commands

/-- The workspaces that commands lead through, the first one included. -/
def states (workspace : Workspace) (commands : List Command) : List Workspace :=
  workspace :: (workspace.trace run commands).map (·.1)

/-! ## Workspaces with true memos -/

/-- The memos of all trees are true to the source of the settings. -/
structure RemembersTruly (source : String) (workspace : Workspace) : Prop where
  source_eq : workspace.settings.source = source
  trees : ∀ entry ∈ workspace.trees, entry.2.RemembersTruly source

/-- The outcome of a command without memos. -/
def withoutMemos (result : Workspace × Reply × List Event) : Workspace × Reply × List Event :=
  (result.1.forget, result.2.1.forget, result.2.2)

/-- The plain outcome of a command is its outcome without memos, and those that it leaves
are true. -/
structure Agrees
    (source : String)
    (plain result : Workspace × Reply × List Event) : Prop where
  same : plain = withoutMemos result
  truly : result.1.RemembersTruly source

theorem tree?_forget
    (workspace : Workspace)
    (slot : String) :
    workspace.forget.tree? slot = (workspace.tree? slot).map Node.forget := by
  rw [tree?, tree?, forget]
  induction workspace.trees with
  | nil => rfl
  | cons entry others inductionHypothesis =>
      obtain ⟨key, tree⟩ := entry
      simp only [List.map_cons, List.lookup_cons, inductionHypothesis]
      cases slot == key <;> rfl

theorem forget_put
    (workspace : Workspace)
    (slot : String)
    (tree : Node) :
    (workspace.put slot tree).forget = workspace.forget.put slot tree.forget := by
  simp only [put, forget, List.map_cons, List.filter_map]
  rfl

namespace RemembersTruly

variable {source : String} {workspace : Workspace}

theorem tree?
    (truly : workspace.RemembersTruly source)
    {slot : String}
    {tree : Node}
    (found : workspace.tree? slot = some tree) :
    tree.RemembersTruly source := by
  obtain ⟨before, after, kept, -⟩ := List.lookup_eq_some_iff.mp found
  apply truly.trees (slot, tree)
  rw [kept]
  exact List.mem_append_right before List.mem_cons_self

theorem put
    (truly : workspace.RemembersTruly source)
    {tree : Node}
    (treeTruly : tree.RemembersTruly source)
    (slot : String) :
    (workspace.put slot tree).RemembersTruly source where
  source_eq := truly.source_eq
  trees := by
    refine List.forall_mem_cons.mpr ⟨treeTruly, fun entry member => ?_⟩
    exact truly.trees entry (List.mem_of_mem_filter member)

end RemembersTruly

section

variable {source : String} {workspace : Workspace} (truly : workspace.RemembersTruly source)

include truly

/-- A command that answers and changes nothing agrees with the plain way. -/
theorem agrees_self
    (reply : Reply)
    (plain : reply.forget = reply) :
    Agrees source (workspace.forget, reply, []) (workspace, reply, []) := by
  refine ⟨?_, truly⟩
  rw [withoutMemos, plain]

theorem agrees_readNode
    {answer answer' : Node → Reply}
    {remember : Node → Node}
    (sameAnswer : ∀ node : Node, node.RemembersTruly source →
      answer' node.forget = (answer node).forget)
    (sameNode : ∀ node : Node, (remember node).forget = node.forget)
    (keepsTruth : ∀ node : Node, node.RemembersTruly source →
      (remember node).RemembersTruly source)
    (slot : String)
    (path : Path) :
    Agrees source (workspace.forget.readNode slot path answer' fun node => node)
      (workspace.readNode slot path answer remember) := by
  unfold readNode
  rw [tree?_forget]
  cases found : workspace.tree? slot with
  | none => exact agrees_self truly .missing rfl
  | some tree =>
      have treeTruly := truly.tree? found
      simp only [Option.map_some]
      rw [Node.forget, Node.at?_mapTags]
      cases foundNode : tree.at? path with
      | none => exact agrees_self truly .missing rfl
      | some node =>
          refine ⟨?_, truly.put (treeTruly.modifyAt keepsTruth path) slot⟩
          simp only [Option.map_some, withoutMemos, forget_put]
          rw [Node.forget_modifyAt_of_forget_eq sameNode, Node.modifyAt_self,
            ← sameAnswer node (treeTruly.at? foundNode)]
          rfl

theorem agrees_changeNode
    {change : Node → Node → Node}
    (commutes : ∀ other node : Node, (change other node).forget = change other.forget node.forget)
    (keepsTruth : ∀ other node : Node, other.RemembersTruly source →
      node.RemembersTruly source → (change other node).RemembersTruly source)
    (slot : String)
    (path : Path)
    (origin : String) :
    Agrees source (workspace.forget.changeNode slot path origin change)
      (workspace.changeNode slot path origin change) := by
  unfold changeNode
  rw [tree?_forget, tree?_forget]
  cases found : workspace.tree? slot with
  | none => exact agrees_self truly .missing rfl
  | some tree =>
      cases foundOther : workspace.tree? origin with
      | none => exact agrees_self truly .missing rfl
      | some other =>
          have changed : (tree.modifyAt (change other) path).forget =
              tree.forget.modifyAt (change other.forget) path :=
            Node.mapTags_modifyAt (commutes other) path tree
          have changedTruly := (truly.tree? found).modifyAt
            (fun node => keepsTruth other node (truly.tree? foundOther)) path
          refine ⟨?_, truly.put changedTruly slot⟩
          simp only [Option.map_some, withoutMemos, forget_put, changed, Reply.forget]

/-! ## Passes -/

theorem agrees_generate (slot name : String) :
    Agrees source (workspace.forget.generatePlain slot name) (workspace.generate slot name) := by
  have sameAnalysis : workspace.forget.analysis? name = workspace.analysis? name := rfl
  unfold generatePlain generate
  rw [tree?_forget, sameAnalysis]
  cases found : workspace.tree? slot with
  | none => exact agrees_self truly .missing rfl
  | some tree =>
      cases workspace.analysis? name with
      | none => exact agrees_self truly .missing rfl
      | some analysis =>
          obtain rfl := truly.source_eq
          have treeTruly := truly.tree? found
          have sameSettings : workspace.forget.settings = workspace.settings := rfl
          refine ⟨?_, truly.put (treeTruly.touch _) slot⟩
          simp only [Option.map_some, withoutMemos, forget_put, Node.forget_touch,
            Node.forget_forget, sameSettings, generate_forget treeTruly,
            Journal.generateEvents_forget treeTruly]
          cases GrammarCompiler.generate workspace.settings analysis tree <;> rfl

end

/-- The same run without memos. -/
def Run.forget (run : Run) : Run :=
  { run with workspace := run.workspace.forget }

theorem runAnalysisPlain_forget
    {source : String}
    {run : Run}
    (truly : run.workspace.RemembersTruly source)
    (slots : List String) :
    runAnalysisPlain run.forget slots =
        ((runAnalysis run slots).1.forget, (runAnalysis run slots).2) ∧
      (runAnalysis run slots).1.workspace.RemembersTruly source ∧
      ∀ reply ∈ (runAnalysis run slots).2, reply.forget = reply := by
  induction slots generalizing run with
  | nil => exact ⟨rfl, truly, fun _ member => nomatch member⟩
  | cons slot slots inductionHypothesis =>
      unfold runAnalysisPlain runAnalysis
      have sameTree := run.workspace.tree?_forget slot
      rw [Run.forget, sameTree]
      cases found : run.workspace.tree? slot with
      | none => exact ⟨rfl, truly, fun _ isReply => Option.some.inj isReply ▸ rfl⟩
      | some tree =>
          obtain rfl := truly.source_eq
          have treeTruly := truly.tree? found
          have sameSettings : run.workspace.forget.settings = run.workspace.settings := rfl
          simp only [Option.map_some, sameSettings, Node.forget_forget,
            Analyzer.analyze_forget treeTruly, Journal.walkEvents_forget treeTruly]
          obtain ⟨analyzer, outcome⟩ := run.analyzer.analyze run.workspace.settings.source tree
          let next : Run :=
            { workspace := run.workspace.put slot
                (tree.touch run.workspace.settings.source (Footprint.ofAnalysis tree))
              analyzer
              outcomes := outcome :: run.outcomes
              events := run.events ++
                Journal.walkEvents run.workspace.settings.source run.analyzer tree }
          have nextTruly : next.workspace.RemembersTruly run.workspace.settings.source :=
            truly.put (treeTruly.touch (Footprint.ofAnalysis tree)) slot
          have nextPlain : next.forget =
              { next with workspace := run.workspace.forget.put slot tree.forget } := by
            simp only [Run.forget, next, forget_put, Node.forget_touch]
          have rest := inductionHypothesis nextTruly
          rw [nextPlain] at rest
          -- A text that cannot be read ends both runs, with any other outcome they go on.
          cases outcome with
          | none => exact rest
          | some failure =>
              cases failure with
              | unreadable span =>
                  rw [← nextPlain]
                  exact ⟨rfl, nextTruly, fun _ isReply => Option.some.inj isReply ▸ rfl⟩
              | _ => exact rest

section

variable {source : String} {workspace : Workspace} (truly : workspace.RemembersTruly source)

include truly

theorem agrees_analyze
    (slots : List String)
    (name : String) :
    Agrees source (workspace.forget.analyzePlain slots name) (workspace.analyze slots name) := by
  have analyzed := @runAnalysisPlain_forget source { workspace } truly slots
  have start : Run.forget { workspace } = { workspace := workspace.forget } := rfl
  rw [start] at analyzed
  unfold analyzePlain analyze
  generalize runAnalysis { workspace } slots = ended at analyzed ⊢
  obtain ⟨same, runTruly, plainReply⟩ := analyzed
  rw [same]
  obtain ⟨run, reply?⟩ := ended
  cases reply? with
  | some reply =>
      refine ⟨?_, runTruly⟩
      simp only [withoutMemos, plainReply reply rfl]
      rfl
  | none =>
      refine ⟨?_, runTruly.source_eq, runTruly.trees⟩
      have sameTrees : slots.filterMap run.workspace.forget.tree? =
          (slots.filterMap run.workspace.tree?).map Node.forget := by
        rw [List.map_filterMap]
        exact List.filterMap_congr fun slot _ => run.workspace.tree?_forget slot
      simp only [withoutMemos, Reply.forget, Run.forget, sameTrees]
      rfl

/-! ## Commands -/

theorem agrees_keep
    {tree : Node}
    (nothing : tree.RemembersNothing)
    (slot : String) :
    Agrees source (workspace.forget.runPlain (.keep slot tree))
      (workspace.run (.keep slot tree)) := by
  have numberedNothing := nothing.numbered workspace.nextId
  have kept := truly.put numberedNothing.remembersTruly slot
  have sameId : workspace.forget.nextId = workspace.nextId := rfl
  have samePut := workspace.forget_put slot (tree.numbered workspace.nextId)
  rw [numberedNothing.forget_eq] at samePut
  refine ⟨?_, kept.source_eq, kept.trees⟩
  simp only [runPlain, run, withoutMemos, Reply.forget, numberedNothing.forget_eq, sameId]
  rw [← samePut]
  rfl

theorem agrees_flatten
    (slot : String)
    (flattening : Flattening) :
    Agrees source (workspace.forget.runPlain (.flatten slot flattening))
      (workspace.run (.flatten slot flattening)) := by
  simp only [runPlain, run, tree?_forget]
  cases found : workspace.tree? slot with
  | none => exact agrees_self truly .missing rfl
  | some tree =>
      have flattened : tree.forget.flatten flattening = (tree.flatten flattening).forget :=
        Node.flatten_mapTags Tag.forget flattening tree
      refine ⟨?_, truly.put ((truly.tree? found).flatten flattening) slot⟩
      simp only [Option.map_some, withoutMemos, forget_put, flattened,
        Journal.flattenEvents_forget, Reply.forget]

/-- One command agrees with the plain way. -/
theorem agrees_run
    {command : Command}
    (keeps : command.KeepsTo source) :
    Agrees source (workspace.forget.runPlain command) (workspace.run command) := by
  have sameSource
      {source? : Option String}
      (same : ∀ other ∈ source?, other = source) :
      source?.getD workspace.settings.source = source := by
    cases source? with
    | none => exact truly.source_eq
    | some other => exact same other rfl
  have sameSettings : workspace.forget.settings = workspace.settings := rfl
  cases command with
  | configure settings => exact ⟨rfl, keeps, truly.trees⟩
  | keep slot tree => exact agrees_keep truly keeps slot
  | copy origin slot =>
      simp only [runPlain, run, tree?_forget]
      cases found : workspace.tree? origin with
      | none => exact agrees_self truly .missing rfl
      | some tree =>
          refine ⟨?_, truly.put (truly.tree? found) slot⟩
          simp only [Option.map_some, withoutMemos, forget_put]
          rfl
  | flatten slot flattening => exact agrees_flatten truly slot flattening
  | analyze slots name => exact agrees_analyze truly slots name
  | isRule name rule =>
      have sameAnalysis : workspace.forget.analysis? name = workspace.analysis? name := rfl
      simp only [runPlain, run, sameAnalysis]
      cases workspace.analysis? name with
      | none => exact agrees_self truly .missing rfl
      | some analysis => exact agrees_self truly _ rfl
  | generate slot name => exact agrees_generate truly slot name
  | readText slot path source? =>
      simp only [runPlain, run, sameSettings, sameSource keeps]
      refine agrees_readNode truly (fun node nodeTruly => ?_) (Node.forget_rememberText source)
        (fun _ nodeTruly => nodeTruly.rememberText) slot path
      have sliced := (nodeTruly node.tag node.tag_mem_tags).text?_eq_slice?
      rw [slicedReply, textReply, Node.span_forget, Node.text?, sliced, Node.span]
      cases Text.slice? source node.tag.span <;> rfl
  | readPosition slot path source? =>
      simp only [runPlain, run, sameSettings, sameSource keeps]
      refine agrees_readNode truly (fun node nodeTruly => ?_)
        (Node.forget_rememberPosition source)
        (fun _ nodeTruly => nodeTruly.rememberPosition) slot path
      have located := (nodeTruly node.tag node.tag_mem_tags).position_eq_locate
      rw [Node.span_forget, Node.span, Node.position, located]
      rfl
  | readPositions slot path source? =>
      simp only [runPlain, run, sameSource keeps]
      apply agrees_readNode truly (fun _ _ => rfl) (Node.forget_rememberPositions source)
      exact fun _ nodeTruly => nodeTruly.rememberPositions
  | recallPositions slot path =>
      refine agrees_readNode truly (fun node _ => ?_) (fun _ => rfl)
        (fun _ nodeTruly => nodeTruly) slot path
      rw [Node.rememberedPositions_forget]
      rfl
  | find slot path =>
      exact agrees_readNode truly (fun _ _ => rfl) (fun _ => rfl) (fun _ nodeTruly => nodeTruly)
        slot path
  | replace slot path origin =>
      refine agrees_changeNode truly ?_ ?_ slot path origin
      · intro other node
        rfl
      · intro other node otherTruly _
        exact otherTruly
  | reshape slot path origin =>
      refine agrees_changeNode truly ?_ ?_ slot path origin
      · intro other node
        rw [Node.forget, Node.mapTags_withTag, Node.forget, Node.forget, Node.tag_mapTags]
      · -- The node keeps its tag, so its memo still speaks of its own span.
        intro other node otherTruly nodeTruly
        exact otherTruly.withTag (nodeTruly node.tag node.tag_mem_tags)
  | compare slot other =>
      simp only [runPlain, run, tree?_forget]
      cases workspace.tree? slot with
      | none => exact agrees_self truly .missing rfl
      | some left =>
          cases workspace.tree? other with
          | none => exact agrees_self truly .missing rfl
          | some right =>
              simp only [Option.map_some, Node.alike_forget]
              exact agrees_self truly _ rfl
  | display slot =>
      simp only [runPlain, run, tree?_forget]
      cases workspace.tree? slot with
      | none => exact agrees_self truly .missing rfl
      | some tree => exact ⟨rfl, truly⟩

/-- Commands in a row agree with the plain way, one by one. -/
theorem trace_agrees
    {commands : List Command}
    (keeps : ∀ command ∈ commands, command.KeepsTo source) :
    workspace.forget.trace runPlain commands =
        (workspace.trace run commands).map withoutMemos ∧
      ∀ state ∈ workspace.states commands, state.RemembersTruly source := by
  induction commands generalizing workspace with
  | nil => exact ⟨rfl, List.forall_mem_singleton.mpr truly⟩
  | cons command commands inductionHypothesis =>
      obtain ⟨first, others⟩ := List.forall_mem_cons.mp keeps
      obtain ⟨same, nextTruly⟩ := agrees_run truly first
      obtain ⟨sameTrace, statesTruly⟩ := inductionHypothesis nextTruly others
      refine ⟨?_, List.forall_mem_cons.mpr ⟨truly, statesTruly⟩⟩
      rw [trace, same, trace, List.map_cons, ← sameTrace]
      rfl

/-- What is generated depends on the settings, the analysis and the tree, but not on the
memos of the tree. -/
theorem generate_answer_eq
    {other : Workspace}
    (otherTruly : other.RemembersTruly source)
    {slot slot' name name' : String}
    (sameSettings : other.settings = workspace.settings)
    (sameAnalysis : other.analysis? name' = workspace.analysis? name)
    (sameTree : (other.tree? slot').map Node.forget = (workspace.tree? slot).map Node.forget) :
    (other.generate slot' name').2 = (workspace.generate slot name).2 := by
  obtain rfl := truly.source_eq
  unfold generate
  rw [sameAnalysis, sameSettings]
  cases found : workspace.tree? slot with
  | none =>
      rw [found, Option.map_none, Option.map_eq_none_iff] at sameTree
      rw [sameTree]
  | some tree =>
      rw [found, Option.map_some, Option.map_eq_some_iff] at sameTree
      obtain ⟨tree', found', same⟩ := sameTree
      rw [found']
      cases workspace.analysis? name with
      | none => rfl
      | some analysis =>
          have treeTruly := truly.tree? found
          have treeTruly' := otherTruly.tree? found'
          simp only [← generate_forget treeTruly, ← Journal.generateEvents_forget treeTruly,
            ← generate_forget treeTruly', ← Journal.generateEvents_forget treeTruly', same]

omit truly in
/-- To generate changes nothing but the memos of the tree. -/
theorem forget_tree?_generate
    (workspace : Workspace)
    (slot name : String) :
    (((workspace.generate slot name).1.tree? slot).map Node.forget =
        (workspace.tree? slot).map Node.forget) ∧
      (workspace.generate slot name).1.settings = workspace.settings ∧
      (workspace.generate slot name).1.analysis? name = workspace.analysis? name := by
  unfold generate
  cases found : workspace.tree? slot with
  | none => exact ⟨congrArg (Option.map Node.forget) found, rfl, rfl⟩
  | some tree =>
      cases foundAnalysis : workspace.analysis? name with
      | none => exact ⟨congrArg (Option.map Node.forget) found, rfl, foundAnalysis⟩
      | some analysis =>
          refine ⟨?_, rfl, foundAnalysis⟩
          simp only [put, tree?, List.lookup_cons_self, Option.map_some, Node.forget_touch]

/-- To generate again gives the same. -/
theorem generate_again (slot name : String) :
    ((workspace.generate slot name).1.generate slot name).2 =
      (workspace.generate slot name).2 := by
  obtain ⟨sameTree, sameSettings, sameAnalysis⟩ := workspace.forget_tree?_generate slot name
  exact generate_answer_eq truly (agrees_generate truly slot name).truly sameSettings
    sameAnalysis sameTree

end

/-- Memos are transparent.  Let all commands keep to the source of a workspace that
remembers nothing.  Then every memo of every workspace they lead through is true to the
source; the plain way leads through the same workspaces to the same answers and events,
up to memos; and to generate gives the same whenever the settings, the analysis and, up
to memos, the tree are the same, in particular twice in a row. -/
theorem memos_are_transparent
    {source : String}
    {workspace : Workspace}
    (isSource : workspace.settings.source = source)
    (nothing : ∀ entry ∈ workspace.trees, entry.2.RemembersNothing)
    {commands : List Command}
    (keeps : ∀ command ∈ commands, command.KeepsTo source) :
    (∀ state ∈ workspace.states commands, state.RemembersTruly source) ∧
    workspace.trace runPlain commands = (workspace.trace run commands).map withoutMemos ∧
    ∀ state ∈ workspace.states commands, ∀ slot name,
      ((state.generate slot name).1.generate slot name).2 = (state.generate slot name).2 ∧
      ∀ other ∈ workspace.states commands, ∀ slot' name',
        other.settings = state.settings →
        other.analysis? name' = state.analysis? name →
        (other.tree? slot').map Node.forget = (state.tree? slot).map Node.forget →
        (other.generate slot' name').2 = (state.generate slot name).2 := by
  have truly : workspace.RemembersTruly source :=
    ⟨isSource, fun entry member => (nothing entry member).remembersTruly⟩
  have unchanged : workspace.forget = workspace := by
    have sameTrees : (workspace.trees.map fun (slot, tree) => (slot, tree.forget)) =
        workspace.trees := by
      refine (List.map_congr_left fun entry member => ?_).trans (List.map_id _)
      exact Prod.ext rfl (nothing entry member).forget_eq
    rw [forget, sameTrees]
  obtain ⟨sameTrace, statesTruly⟩ := trace_agrees truly keeps
  rw [unchanged] at sameTrace
  refine ⟨statesTruly, sameTrace, fun state isState slot name => ⟨?_, ?_⟩⟩
  · exact generate_again (statesTruly state isState) slot name
  · intro other isOther slot' name' sameSettings sameAnalysis sameTree
    exact generate_answer_eq (statesTruly state isState) (statesTruly other isOther) sameSettings
      sameAnalysis sameTree

/-- A rule with a choice inside a choice and an action. -/
def nestedChoiceSource : String :=
  "G<c, i> A = A | B { x };"

/-- The tree of `nestedChoiceSource`. -/
def nestedChoiceTree : Node :=
  .file ⟨0, ⟨0, 24⟩, {}⟩ []
    [.grammar ⟨0, ⟨0, 24⟩, {}⟩
      (.declaration ⟨0, ⟨0, 7⟩, {}⟩
        (.genericName ⟨0, ⟨0, 7⟩, {}⟩ (.code ⟨0, ⟨0, 1⟩, {}⟩)
          [.code ⟨0, ⟨2, 3⟩, {}⟩, .code ⟨0, ⟨5, 6⟩, {}⟩]) none)
      [.rule ⟨0, ⟨8, 24⟩, {}⟩ false (.code ⟨0, ⟨8, 9⟩, {}⟩) none
        (.choice ⟨0, ⟨12, 23⟩, {}⟩
          [.choice ⟨0, ⟨12, 13⟩, {}⟩ [.identifier ⟨0, ⟨12, 13⟩, {}⟩],
            .action ⟨0, ⟨16, 23⟩, {}⟩ (.identifier ⟨0, ⟨16, 17⟩, {}⟩) (.code ⟨0, ⟨18, 23⟩, {}⟩)])]]

/-- A tree is generated without a namespace, which fails, then a flattened copy with one,
and then the tree itself. -/
def nestedChoiceSession : List Command :=
  [.keep "tree" nestedChoiceTree, .analyze ["tree"] "tables", .generate "tree" "tables",
    .configure { source := nestedChoiceSource, file := "other", namespaceName? := some "N" },
    .copy "tree" "flat", .flatten "flat" .ofAll, .generate "flat" "tables",
    .readText "tree" [0] (some nestedChoiceSource), .generate "tree" "tables"]

/-- A workspace with nothing but the source. -/
def nestedChoiceStart : Workspace :=
  { settings := { source := nestedChoiceSource } }

/-- The third command of the session fails, the last one leaves the position of the action
behind, and the session goes as without memos. -/
theorem memos_are_transparent_nestedChoiceSession :
    (nestedChoiceStart.settings.source = nestedChoiceSource ∧
      (∀ entry ∈ nestedChoiceStart.trees, entry.2.RemembersNothing) ∧
      ∀ command ∈ nestedChoiceSession, command.KeepsTo nestedChoiceSource) ∧
    ((nestedChoiceStart.trace run nestedChoiceSession)[2]?.map fun (_, reply, _) =>
      reply matches .failure _) = some true ∧
    ((nestedChoiceStart.states nestedChoiceSession).getLast?.bind fun last =>
      (last.tree? "tree").bind (·.rememberedPositions.getLast?)) = some (some (1, 19)) ∧
    (∀ state ∈ nestedChoiceStart.states nestedChoiceSession,
      state.RemembersTruly nestedChoiceSource) ∧
    nestedChoiceStart.trace runPlain nestedChoiceSession =
      (nestedChoiceStart.trace run nestedChoiceSession).map withoutMemos := by
  have isSource : nestedChoiceStart.settings.source = nestedChoiceSource := rfl
  have nothing : ∀ entry ∈ nestedChoiceStart.trees, entry.2.RemembersNothing := by decide
  have keeps : ∀ command ∈ nestedChoiceSession, command.KeepsTo nestedChoiceSource := by decide
  obtain ⟨truly, sameTrace, -⟩ := memos_are_transparent isSource nothing keeps
  exact ⟨⟨isSource, nothing, keeps⟩, by decide +kernel, by decide +kernel, truly, sameTrace⟩

end Workspace
end GrammarCompiler
