import GrammarCompiler.Journal
import GrammarCompiler.Proofs.Renumbering
import GrammarCompiler.Tree.Path

/-!
# True memos

A memo is true to a source if it holds what the source says at the span of its node.
Reading, flattening and changing nodes at paths keep memos true.  To forget true memos
is a retagging that keeps all numbers, so every pass gives the same without them.
-/

namespace GrammarCompiler

/-! ## Memos of tags -/

namespace Tag

/-- What is remembered under a tag is what the source says at its span. -/
structure RemembersTruly (source : String) (tag : Tag) : Prop where
  text : ∀ text ∈ tag.memo.text?, Text.slice? source tag.span = some text
  position : ∀ position ∈ tag.memo.position?, position = Text.locate source tag.span.start

variable {source : String} {tag : Tag}

theorem remembersTruly_of_memo_eq
    (nothing : tag.memo = {}) :
    tag.RemembersTruly source := by
  constructor
  · intro text remembered
    rw [nothing] at remembered
    cases remembered
  · intro position remembered
    rw [nothing] at remembered
    cases remembered

namespace RemembersTruly

theorem text?_eq_slice?
    (truly : tag.RemembersTruly source) :
    tag.text? source = Text.slice? source tag.span := by
  rw [Tag.text?]
  cases remembered : tag.memo.text? with
  | none => rfl
  | some text => exact (truly.text text remembered).symm

theorem position_eq_locate
    (truly : tag.RemembersTruly source) :
    tag.position source = Text.locate source tag.span.start := by
  rw [Tag.position]
  cases remembered : tag.memo.position? with
  | none => rfl
  | some position => exact truly.position position remembered

/-- To read a text keeps a memo true. -/
theorem rememberText
    (truly : tag.RemembersTruly source) :
    (tag.rememberText source).RemembersTruly source := by
  rw [Tag.rememberText]
  cases tag.memo.text? with
  | some text => exact truly
  | none => exact ⟨fun text sliced => sliced, truly.position⟩

/-- To read a position keeps a memo true. -/
theorem rememberPosition
    (truly : tag.RemembersTruly source) :
    (tag.rememberPosition source).RemembersTruly source := by
  rw [Tag.rememberPosition]
  cases tag.memo.position? with
  | some position => exact truly
  | none => exact ⟨truly.text, fun position located => (Option.some.inj located).symm⟩

end RemembersTruly

theorem forget_rememberText
    (source : String)
    (tag : Tag) :
    (tag.rememberText source).forget = tag.forget := by
  rw [Tag.rememberText]
  cases tag.memo.text? <;> rfl

theorem forget_rememberPosition
    (source : String)
    (tag : Tag) :
    (tag.rememberPosition source).forget = tag.forget := by
  rw [Tag.rememberPosition]
  cases tag.memo.position? <;> rfl

end Tag

/-- To forget all memos is to change the tags and keep the numbers. -/
def Retagging.ofForgetting : Retagging where
  change := Tag.forget
  number := id
  id_change _ := rfl
  span_change _ := rfl

/-! ## Rebuilding a node around other children -/

namespace Node

theorem tag_withChildren
    (node : Node)
    (nodes : List Node) :
    (node.withChildren nodes).tag = node.tag := by
  fun_cases withChildren node nodes <;> rfl

theorem withChildren_children (node : Node) : node.withChildren node.children = node := by
  cases node with
  | declaration tag name base? => cases base? <;> rfl
  | rule tag isOverride name params? body => cases params? <;> rfl
  | _ => simp [withChildren, children]

/-- As many children as before all find their places, and tags are changed before or
after that. -/
theorem children_and_mapTags_withChildren
    {node : Node}
    {nodes : List Node}
    (sameLength : nodes.length = node.children.length) :
    (node.withChildren nodes).children = nodes ∧
      ∀ change, (node.withChildren nodes).mapTags change =
        (node.mapTags change).withChildren (nodes.map (mapTags change)) := by
  cases node with
  | file tag preamble grammars =>
      rw [children, List.length_append] at sameLength
      simp [withChildren, sameLength, children, mapTags]
  | sequence tag members
  | choice tag members =>
      rw [children] at sameLength
      simp [withChildren, sameLength, children, mapTags]
  | grammar tag first others
  | genericName tag first others
  | call tag first others =>
      obtain ⟨first', others', rfl⟩ := List.exists_cons_of_length_eq_add_one sameLength
      simp [withChildren, Nat.succ.inj sameLength, children, mapTags]
  | declaration tag name base? =>
      cases base? with
      | none =>
          obtain ⟨name', rfl⟩ := List.length_eq_one_iff.mp sameLength
          exact ⟨rfl, fun _ => rfl⟩
      | some base =>
          obtain ⟨name', base', rfl⟩ := List.length_eq_two.mp sameLength
          exact ⟨rfl, fun _ => rfl⟩
  | rule tag isOverride name params? body =>
      cases params? with
      | none =>
          obtain ⟨name', body', rfl⟩ := List.length_eq_two.mp sameLength
          exact ⟨rfl, fun _ => rfl⟩
      | some params =>
          obtain ⟨name', params', body', rfl⟩ := List.length_eq_three.mp sameLength
          exact ⟨rfl, fun _ => rfl⟩
  | usingDirective tag only
  | unary tag operator only
  | fail tag only =>
      obtain ⟨only', rfl⟩ := List.length_eq_one_iff.mp sameLength
      exact ⟨rfl, fun _ => rfl⟩
  | binding tag first second
  | condition tag first second
  | action tag first second =>
      obtain ⟨first', second', rfl⟩ := List.length_eq_two.mp sameLength
      exact ⟨rfl, fun _ => rfl⟩
  | comment | code | literal | identifier | any =>
      exact ⟨(List.length_eq_zero_iff.mp sameLength).symm, fun _ => rfl⟩

theorem mapTags_withTag
    (change : Tag → Tag)
    (tag : Tag)
    (node : Node) :
    (node.withTag tag).mapTags change = (node.mapTags change).withTag (change tag) := by
  cases node with
  | declaration tag name base? => cases base? <;> rfl
  | rule tag isOverride name params? body => cases params? <;> rfl
  | _ => rfl

/-! ## Nodes at paths -/

theorem at?_mapTags
    (change : Tag → Tag)
    (path : Path)
    (tree : Node) :
    (tree.mapTags change).at? path = (tree.at? path).map (mapTags change) := by
  induction path generalizing tree with
  | nil => rfl
  | cons index path inductionHypothesis =>
      rw [at?, at?, children_mapTags, List.getElem?_map]
      cases tree.children[index]? with
      | none => rfl
      | some child => exact inductionHypothesis child

/-- The tags below a path are tags of the tree. -/
theorem tags_subset_of_at?
    {path : Path}
    {tree node : Node}
    (found : tree.at? path = some node) :
    node.tags ⊆ tree.tags := by
  induction path generalizing tree with
  | nil =>
      cases found
      exact List.Subset.refl _
  | cons index path inductionHypothesis =>
      obtain ⟨child, isChild, below⟩ := Option.bind_eq_some_iff.mp found
      exact List.Subset.trans (inductionHypothesis below)
        (tags_subset_of_mem_children (List.mem_of_getElem? isChild))

/-- A change that a view turns into another one does so at every place of a list. -/
theorem map_modify
    {view : Node → Node}
    {change change' : Node → Node}
    (commutes : ∀ node, view (change node) = change' (view node))
    (index : Nat)
    (nodes : List Node) :
    (nodes.modify index change).map view = (nodes.map view).modify index change' := by
  induction nodes generalizing index with
  | nil => cases index <;> rfl
  | cons node nodes inductionHypothesis =>
      cases index with
      | zero => simp [commutes]
      | succ index => simp [inductionHypothesis]

/-- A change that other tags turn into another one does so at every path. -/
theorem mapTags_modifyAt
    {retag : Tag → Tag}
    {change change' : Node → Node}
    (commutes : ∀ node, (change node).mapTags retag = change' (node.mapTags retag))
    (path : Path)
    (tree : Node) :
    (tree.modifyAt change path).mapTags retag = (tree.mapTags retag).modifyAt change' path := by
  induction path generalizing tree with
  | nil => exact commutes tree
  | cons index path inductionHypothesis =>
      have sameLength := List.length_modify (modifyAt change path) tree.children index
      rw [modifyAt, modifyAt, (children_and_mapTags_withChildren sameLength).2 retag,
        map_modify inductionHypothesis, children_mapTags]

theorem modifyAt_self
    (path : Path)
    (tree : Node) :
    tree.modifyAt (fun node => node) path = tree := by
  induction path generalizing tree with
  | nil => rfl
  | cons index path inductionHypothesis =>
      rw [modifyAt, funext inductionHypothesis]
      exact (congrArg tree.withChildren (List.modify_id index tree.children)).trans
        tree.withChildren_children

/-- A change of memos alone is forgotten at every path. -/
theorem forget_modifyAt_of_forget_eq
    {change : Node → Node}
    (keeps : ∀ node, (change node).forget = node.forget)
    (path : Path)
    (tree : Node) :
    (tree.modifyAt change path).forget = tree.forget := by
  rw [forget, @mapTags_modifyAt Tag.forget change (fun node => node) keeps, modifyAt_self, forget]

/-! ## Memos of trees -/

/-- What is remembered anywhere in a tree is what the source says. -/
def RemembersTruly (source : String) (tree : Node) : Prop :=
  ∀ tag ∈ tree.tags, tag.RemembersTruly source

variable {source : String}

theorem RemembersNothing.remembersTruly
    {tree : Node}
    (nothing : tree.RemembersNothing) :
    tree.RemembersTruly source := by
  intro tag member
  exact Tag.remembersTruly_of_memo_eq (nothing tag member)

theorem remembersTruly_iff
    {node : Node} :
    node.RemembersTruly source ↔
      node.tag.RemembersTruly source ∧ ∀ child ∈ node.children, child.RemembersTruly source := by
  simp only [RemembersTruly, tags_eq_cons node, List.forall_mem_cons, List.forall_mem_flatMap]

namespace RemembersTruly

variable {tree : Node}

theorem child
    (truly : tree.RemembersTruly source)
    {child : Node}
    (isChild : child ∈ tree.children) :
    child.RemembersTruly source :=
  (remembersTruly_iff.mp truly).2 child isChild

theorem at?
    (truly : tree.RemembersTruly source)
    {path : Path}
    {node : Node}
    (found : tree.at? path = some node) :
    node.RemembersTruly source := by
  intro tag member
  exact truly tag (tags_subset_of_at? found member)

theorem withTag
    (truly : tree.RemembersTruly source)
    {tag : Tag}
    (tagTruly : tag.RemembersTruly source) :
    (tree.withTag tag).RemembersTruly source := by
  rw [remembersTruly_iff, tag_withTag, children_withTag]
  exact ⟨tagTruly, (remembersTruly_iff.mp truly).2⟩

theorem rememberText
    (truly : tree.RemembersTruly source) :
    (tree.rememberText source).RemembersTruly source :=
  truly.withTag (truly tree.tag tree.tag_mem_tags).rememberText

theorem rememberPosition
    (truly : tree.RemembersTruly source) :
    (tree.rememberPosition source).RemembersTruly source :=
  truly.withTag (truly tree.tag tree.tag_mem_tags).rememberPosition

theorem rememberPositions
    (truly : tree.RemembersTruly source) :
    (tree.rememberPositions source).RemembersTruly source := by
  rw [RemembersTruly, Node.rememberPositions, tags_mapTags, List.forall_mem_map]
  intro tag member
  exact (truly tag member).rememberPosition

theorem flatten
    (truly : tree.RemembersTruly source)
    (flattening : Flattening) :
    (tree.flatten flattening).RemembersTruly source := by
  intro tag member
  exact truly tag ((tags_flatten_sublist flattening tree).subset member)

/-- A change that keeps memos true does so at every path. -/
theorem modifyAt
    {change : Node → Node}
    (keeps : ∀ node : Node, node.RemembersTruly source → (change node).RemembersTruly source)
    (path : Path)
    (truly : tree.RemembersTruly source) :
    (tree.modifyAt change path).RemembersTruly source := by
  induction path generalizing tree with
  | nil => exact keeps tree truly
  | cons index path inductionHypothesis =>
      have sameLength := List.length_modify (Node.modifyAt change path) tree.children index
      obtain ⟨tagTruly, childrenTruly⟩ := remembersTruly_iff.mp truly
      rw [Node.modifyAt, remembersTruly_iff, tag_withChildren,
        (children_and_mapTags_withChildren sameLength).1]
      refine ⟨tagTruly, fun child member => ?_⟩
      obtain ⟨place, found⟩ := List.mem_iff_getElem?.mp member
      rw [List.getElem?_modify] at found
      obtain ⟨former, isFormer, rfl⟩ := Option.map_eq_some_iff.mp found
      have formerTruly := childrenTruly former (List.mem_of_getElem? isFormer)
      split
      · exact inductionHypothesis formerTruly
      · exact formerTruly

/-- The steps of a pass keep memos true. -/
theorem touch
    (truly : tree.RemembersTruly source)
    (steps : List Touch) :
    (tree.touch source steps).RemembersTruly source := by
  induction steps generalizing tree with
  | nil => exact truly
  | cons step steps inductionHypothesis =>
      cases step with
      | text path =>
          rw [Node.touch]
          split
          · exact inductionHypothesis (truly.modifyAt (fun _ => rememberText) path)
          · exact truly
      | positions path =>
          exact inductionHypothesis (truly.modifyAt (fun _ => rememberPositions) path)
      | halt => exact truly

end RemembersTruly

/-! ## Forgetting -/

theorem forget_withTag_of_forget_eq
    {node : Node}
    {tag : Tag}
    (sameTag : tag.forget = node.tag.forget) :
    (node.withTag tag).forget = node.forget := by
  have same : node.withTag node.tag = node := by cases node <;> rfl
  rw [forget, mapTags_withTag, sameTag, ← mapTags_withTag, same, forget]

theorem forget_rememberText
    (source : String)
    (node : Node) :
    (node.rememberText source).forget = node.forget :=
  forget_withTag_of_forget_eq (Tag.forget_rememberText source node.tag)

theorem forget_rememberPosition
    (source : String)
    (node : Node) :
    (node.rememberPosition source).forget = node.forget :=
  forget_withTag_of_forget_eq (Tag.forget_rememberPosition source node.tag)

theorem forget_rememberPositions
    (source : String)
    (node : Node) :
    (node.rememberPositions source).forget = node.forget := by
  have sameTags : Tag.forget ∘ Tag.rememberPosition source = Tag.forget :=
    funext (Tag.forget_rememberPosition source)
  rw [forget, rememberPositions, mapTags_mapTags, sameTags, forget]

/-- The steps of a pass change nothing but memos. -/
theorem forget_touch
    (source : String)
    (steps : List Touch)
    (tree : Node) :
    (tree.touch source steps).forget = tree.forget := by
  induction steps generalizing tree with
  | nil => rfl
  | cons step steps inductionHypothesis =>
      cases step with
      | text path =>
          rw [Node.touch]
          split
          · rw [inductionHypothesis, forget_modifyAt_of_forget_eq (forget_rememberText source)]
          · rfl
      | positions path =>
          rw [Node.touch, inductionHypothesis,
            forget_modifyAt_of_forget_eq (forget_rememberPositions source)]
      | halt => rfl

theorem forget_file
    (tag : Tag)
    (preamble grammars : List Node) :
    (file tag preamble grammars).forget =
      file tag.forget (preamble.map forget) (grammars.map forget) := by
  rw [forget, mapTags, mapTagsAll_eq_map, mapTagsAll_eq_map]
  rfl

theorem bare_forget (tree : Node) : tree.forget.bare = tree.bare := by
  rw [bare, forget, mapTags_mapTags]
  rfl

theorem RemembersNothing.forget_eq
    {tree : Node}
    (nothing : tree.RemembersNothing) :
    tree.forget = tree := by
  apply eq_of_bare_eq tree.bare_forget
  rw [forget, tags_mapTags]
  refine (List.map_congr_left fun tag member => ?_).trans (List.map_id _)
  obtain ⟨id, span, memo⟩ := tag
  cases nothing _ member
  rfl

theorem forget_forget (tree : Node) : tree.forget.forget = tree.forget := by
  rw [forget, forget, mapTags_mapTags]
  rfl

theorem span_forget (node : Node) : node.forget.span = node.span :=
  span_mapTags Retagging.ofForgetting node

theorem rememberedPositions_forget (tree : Node) :
    tree.forget.rememberedPositions = tree.rememberedPositions.map fun _ => none := by
  have ofTags (node : Node) :
      node.rememberedPositions = node.tags.map (·.memo.position?) := by
    rw [rememberedPositions, tags, List.map_map]
    rfl
  rw [ofTags, ofTags, forget, tags_mapTags, List.map_map, List.map_map]
  rfl

theorem size_forget (tree : Node) : tree.forget.size = tree.size := by
  rw [← length_tags, ← length_tags, forget, tags_mapTags, List.length_map]

theorem removedBy_forget
    (flattening : Flattening)
    (tree : Node) :
    tree.forget.removedBy flattening = tree.removedBy flattening := by
  have flattened := flatten_mapTags Tag.forget flattening tree
  rw [removedBy, size_forget, forget, flattened, ← forget, size_forget, removedBy]

theorem alike_forget
    (left right : Node) :
    left.forget.alike right.forget = left.alike right := by
  rw [Bool.eq_iff_iff, alike_iff_bare_eq, alike_iff_bare_eq, bare_forget, bare_forget]

end Node

/-! ## Passes without memos -/

theorem Retagging.keepsReadings_ofForgetting
    {source : String}
    {tree : Node}
    (truly : tree.RemembersTruly source) :
    ofForgetting.KeepsReadings source tree := by
  intro tag member
  exact ⟨(truly tag member).text?_eq_slice?.symm, (truly tag member).position_eq_locate.symm⟩

theorem Scope.renumber_id (scope : Scope) : scope.renumber id = scope := by
  simp [Scope.renumber]

theorem AlternativeSet.renumber_id (set : AlternativeSet) : set.renumber id = set := by
  have same : Alternative.renumber id = id := by
    funext alternative
    simp [Alternative.renumber, Scope.renumber_id]
  simp [AlternativeSet.renumber, same]

theorem GrammarAnalysis.renumber_id : GrammarAnalysis.renumber id = id := by
  have same : AlternativeSet.renumber id = id := funext AlternativeSet.renumber_id
  funext grammar
  simp [GrammarAnalysis.renumber, RuleTable.renumber, same]

theorem Analyzer.renumber_id (analyzer : Analyzer) : analyzer.renumber id = analyzer := by
  simp [Analyzer.renumber, GrammarAnalysis.renumber_id]

theorem Analysis.renumber_id (analysis : Analysis) : analysis.renumber id = analysis := by
  simp [Analysis.renumber, GrammarAnalysis.renumber_id]

section

variable {source : String} {tree : Node} (truly : tree.RemembersTruly source)

include truly

namespace Analyzer

theorem walkGrammar_forget (known : NameSet) :
    walkGrammar source known tree.forget = walkGrammar source known tree := by
  have walked : walkGrammar source known tree.forget =
      ((walkGrammar source known tree).1,
        (walkGrammar source known tree).2.map (GrammarAnalysis.renumber id)) :=
    walkGrammar_mapTags (Retagging.keepsReadings_ofForgetting truly) known
  rw [walked, GrammarAnalysis.renumber_id]
  obtain ⟨names, outcome⟩ := walkGrammar source known tree
  cases outcome <;> rfl

/-- An analyzer walks a tree to the same end without its memos. -/
theorem analyze_forget (analyzer : Analyzer) :
    analyzer.analyze source tree.forget = analyzer.analyze source tree := by
  have walked : (analyzer.renumber id).analyze source tree.forget =
      ((analyzer.analyze source tree).1.renumber id, (analyzer.analyze source tree).2) :=
    analyze_mapTags (Retagging.keepsReadings_ofForgetting truly) analyzer
  rwa [renumber_id, renumber_id] at walked

end Analyzer

namespace Synthesis

theorem matcherFunction_forget
    (analysis : Analysis)
    (set : AlternativeSet) :
    matcherFunction source analysis (ruleNodes tree.forget) set =
      matcherFunction source analysis (ruleNodes tree) set := by
  have keeps := Retagging.keepsReadings_ofForgetting truly
  have same : matcherFunction source (analysis.renumber id)
      ((ruleNodes tree).map (RuleNode.retag Retagging.ofForgetting)) (set.renumber id) =
        matcherFunction source analysis (ruleNodes tree) set :=
    matcherFunction_renumber Function.injective_id analysis
      (fun rule member => keepsReadings_of_mem_ruleNodes keeps member) set
  rwa [Analysis.renumber_id, AlternativeSet.renumber_id, ← ruleNodes_mapTags] at same

theorem matcherClass_forget (analysis : Analysis) :
    matcherClass source analysis tree.forget = matcherClass source analysis tree := by
  have same : matcherClass source (analysis.renumber id) tree.forget =
      matcherClass source analysis tree :=
    matcherClass_mapTags Function.injective_id analysis
      (Retagging.keepsReadings_ofForgetting truly)
  rwa [Analysis.renumber_id] at same

end Synthesis

namespace Journal

theorem grammarEvents_forget (known : NameSet) :
    grammarEvents source known tree.forget = grammarEvents source known tree := by
  rw [grammarEvents, Analyzer.walkGrammar_forget truly, grammarEvents]

omit truly in
theorem grammarsEvents_map_forget
    {nodes : List Node}
    (truly : ∀ node ∈ nodes, node.RemembersTruly source)
    (known : NameSet) :
    grammarsEvents source known (nodes.map Node.forget) = grammarsEvents source known nodes := by
  induction nodes generalizing known with
  | nil => rfl
  | cons node nodes inductionHypothesis =>
      obtain ⟨first, others⟩ := List.forall_mem_cons.mp truly
      rw [List.map_cons, grammarsEvents, grammarEvents_forget first,
        Analyzer.walkGrammar_forget first, grammarsEvents]
      simp only [inductionHypothesis others]

theorem walkEvents_forget (analyzer : Analyzer) :
    walkEvents source analyzer tree.forget = walkEvents source analyzer tree := by
  cases tree with
  | file tag preamble grammars =>
      have samePreamble : Analyzer.importedBy source (preamble.map Node.forget) =
          Analyzer.importedBy source preamble :=
        Analyzer.importedBy_map_mapTags fun node member =>
          Retagging.keepsReadings_ofForgetting (truly.child (List.mem_append_left _ member))
      have sameGrammars := grammarsEvents_map_forget
        (fun node member => truly.child (List.mem_append_right _ member)) analyzer.ruleNames
      simp only [Node.forget_file, walkEvents, samePreamble, sameGrammars]
  | declaration tag name base? => cases base? <;> rfl
  | rule tag isOverride name params? body => cases params? <;> rfl
  | _ => rfl

theorem functionsEvents_forget
    (analysis : Analysis)
    (grammar : GrammarAnalysis)
    (sets : List AlternativeSet) :
    functionsEvents source analysis (Synthesis.ruleNodes tree.forget) grammar sets =
      functionsEvents source analysis (Synthesis.ruleNodes tree) grammar sets := by
  induction sets with
  | nil => rfl
  | cons set sets inductionHypothesis =>
      rw [functionsEvents, functionsEvents, Synthesis.matcherFunction_forget truly,
        inductionHypothesis]

omit truly in
theorem classesEvents_map_forget
    {nodes : List Node}
    (truly : ∀ node ∈ nodes, node.RemembersTruly source)
    (analysis : Analysis) :
    classesEvents source analysis (nodes.map Node.forget) =
      classesEvents source analysis nodes := by
  induction nodes with
  | nil => rfl
  | cons node nodes inductionHypothesis =>
      obtain ⟨first, others⟩ := List.forall_mem_cons.mp truly
      have sameId : node.forget.id = node.id := by
        rw [Node.id, Node.forget, Node.tag_mapTags, Node.id]
        rfl
      rw [List.map_cons, classesEvents, classesEvents, sameId, Synthesis.matcherClass_forget first,
        inductionHypothesis others]
      simp only [functionsEvents_forget first]

end Journal

end

/-- What is generated from a tree is generated without its memos. -/
theorem generate_forget
    {settings : Settings}
    {tree : Node}
    (truly : tree.RemembersTruly settings.source)
    (analysis : Analysis) :
    generate settings analysis tree.forget = generate settings analysis tree := by
  have same : generate settings (analysis.renumber id) tree.forget =
      generate settings analysis tree :=
    generate_mapTags Function.injective_id (Retagging.keepsReadings_ofForgetting truly) analysis
  rwa [Analysis.renumber_id] at same

namespace Journal

theorem generateEvents_forget
    {settings : Settings}
    {tree : Node}
    (truly : tree.RemembersTruly settings.source)
    (analysis : Analysis) :
    generateEvents settings analysis tree.forget = generateEvents settings analysis tree := by
  unfold generateEvents
  cases settings.requireNamespace with
  | error failure => rfl
  | ok namespaceName =>
      cases tree with
      | file tag preamble grammars =>
          have samePreamble : (preamble.map Node.forget).mapM
              (Synthesis.preambleLine settings.source) =
                preamble.mapM (Synthesis.preambleLine settings.source) :=
            mapM_map_eq fun node member => Synthesis.preambleLine_mapTags
              (Retagging.keepsReadings_ofForgetting (truly.child (List.mem_append_left _ member)))
          have sameClasses := classesEvents_map_forget
            (fun node member => truly.child (List.mem_append_right _ member)) analysis
          simp only [Node.forget_file, samePreamble, sameClasses]
      | declaration tag name base? => cases base? <;> rfl
      | rule tag isOverride name params? body => cases params? <;> rfl
      | _ => rfl

theorem flattenEvents_forget
    (flattening : Flattening)
    (tree : Node) :
    flattenEvents flattening tree.forget = flattenEvents flattening tree := by
  rw [flattenEvents, flattenEvents, Node.removedBy_forget]

end Journal
end GrammarCompiler
