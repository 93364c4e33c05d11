import GrammarCompiler.Tree.Reading

/-!
# Induction over grammar trees

Two induction principles: one with a case for each kind, and one over the
children of a node, whatever its kind.  The first suits functions that follow
the constructors, the second functions that treat most kinds alike.

The conditions on whole trees are stated with the tags of all nodes: nodes have
distinct numbers, and their spans fit the source.
-/

namespace GrammarCompiler
namespace Node

/-- Induction over trees with one case for each kind.  A property of a node may
be assumed for every child, also for the members of lists and for children that
may be missing. -/
@[elab_as_elim, induction_eliminator]
theorem kindInduction
    {motive : Node → Prop}
    (file : ∀ tag preamble grammars,
      (∀ node ∈ preamble, motive node) →
      (∀ node ∈ grammars, motive node) →
      motive (file tag preamble grammars))
    (usingDirective : ∀ tag target, motive target → motive (usingDirective tag target))
    (comment : ∀ tag, motive (comment tag))
    (grammar : ∀ tag header body,
      motive header →
      (∀ node ∈ body, motive node) →
      motive (grammar tag header body))
    (declaration : ∀ tag name base?,
      motive name →
      (∀ base ∈ base?, motive base) →
      motive (declaration tag name base?))
    (genericName : ∀ tag name parameters,
      motive name →
      (∀ node ∈ parameters, motive node) →
      motive (genericName tag name parameters))
    (code : ∀ tag, motive (code tag))
    (rule : ∀ tag isOverride name params? body,
      motive name →
      (∀ params ∈ params?, motive params) →
      motive body →
      motive (rule tag isOverride name params? body))
    (literal : ∀ tag, motive (literal tag))
    (identifier : ∀ tag, motive (identifier tag))
    (call : ∀ tag name arguments,
      motive name →
      (∀ node ∈ arguments, motive node) →
      motive (call tag name arguments))
    (any : ∀ tag, motive (any tag))
    (unary : ∀ tag operator operand, motive operand → motive (unary tag operator operand))
    (binding : ∀ tag operand captured,
      motive operand → motive captured → motive (binding tag operand captured))
    (condition : ∀ tag operand test,
      motive operand → motive test → motive (condition tag operand test))
    (action : ∀ tag operand block,
      motive operand → motive block → motive (action tag operand block))
    (sequence : ∀ tag items, (∀ node ∈ items, motive node) → motive (sequence tag items))
    (choice : ∀ tag alternatives,
      (∀ node ∈ alternatives, motive node) → motive (choice tag alternatives))
    (fail : ∀ tag message, motive message → motive (fail tag message))
    (node : Node) :
    motive node :=
  @Node.rec motive
    (fun nodes => ∀ node ∈ nodes, motive node)
    (fun node? => ∀ node ∈ node?, motive node)
    file usingDirective comment grammar declaration genericName code rule literal identifier
    call any unary binding condition action sequence choice fail
    (fun _ member => nomatch member)
    (fun _ _ ofHead ofTail => List.forall_mem_cons.mpr ⟨ofHead, ofTail⟩)
    (fun _ member => nomatch member)
    (fun _ ofValue _ member => Option.some.inj member ▸ ofValue)
    node

/-- Induction over trees through the children of a node. -/
@[elab_as_elim]
theorem childInduction
    {motive : Node → Prop}
    (step : ∀ node, (∀ child ∈ node.children, motive child) → motive node)
    (node : Node) :
    motive node := by
  induction node with
  | file tag preamble grammars ofPreamble ofGrammars =>
      exact step _ (List.forall_mem_append.mpr ⟨ofPreamble, ofGrammars⟩)
  | declaration tag name base? ofName ofBase =>
      refine step _ (List.forall_mem_cons.mpr ⟨ofName, fun child member => ?_⟩)
      exact ofBase child (Option.mem_toList.mp member)
  | rule tag isOverride name params? body ofName ofParams ofBody =>
      refine step _ (List.forall_mem_cons.mpr ⟨ofName, List.forall_mem_append.mpr
        ⟨fun child member => ?_, List.forall_mem_singleton.mpr ofBody⟩⟩)
      exact ofParams child (Option.mem_toList.mp member)
  | grammar tag first others ofFirst ofOthers
  | genericName tag first others ofFirst ofOthers
  | call tag first others ofFirst ofOthers =>
      exact step _ (List.forall_mem_cons.mpr ⟨ofFirst, ofOthers⟩)
  | binding tag first second ofFirst ofSecond
  | condition tag first second ofFirst ofSecond
  | action tag first second ofFirst ofSecond =>
      exact step _ (List.forall_mem_cons.mpr
        ⟨ofFirst, List.forall_mem_singleton.mpr ofSecond⟩)
  | usingDirective tag only ofOnly
  | unary tag operator only ofOnly
  | fail tag only ofOnly =>
      exact step _ (List.forall_mem_singleton.mpr ofOnly)
  | sequence tag members ofMembers
  | choice tag members ofMembers =>
      exact step _ ofMembers
  | comment tag | code tag | literal tag | identifier tag | any tag =>
      exact step _ (fun _ member => nomatch member)

/-- The nodes of a tree are its root and the nodes of its children. -/
theorem preorder_eq_cons (node : Node) :
    node.preorder = node :: node.children.flatMap preorder := by
  cases node with
  | declaration tag name base? => cases base? <;> simp [preorder, children]
  | rule tag isOverride name params? body => cases params? <;> simp [preorder, children]
  | _ => simp [preorder, children]

theorem self_mem_preorder (node : Node) : node ∈ node.preorder := by
  rw [preorder_eq_cons]
  exact List.mem_cons_self

/-- The nodes below a child are below its parent. -/
theorem mem_preorder_of_mem_children
    {node child below : Node}
    (isChild : child ∈ node.children)
    (member : below ∈ child.preorder) :
    below ∈ node.preorder := by
  rw [preorder_eq_cons]
  exact List.mem_cons_of_mem _ (List.mem_flatMap.mpr ⟨child, isChild, member⟩)

/-! ## The tags of all nodes -/

/-- The tags of a node and of all nodes below it, in preorder. -/
def tags (node : Node) : List Tag :=
  node.preorder.map tag

theorem tags_eq_cons (node : Node) :
    node.tags = node.tag :: node.children.flatMap tags := by
  rw [tags, preorder_eq_cons, List.map_cons, List.map_flatMap]
  rfl

theorem tag_mem_tags (node : Node) : node.tag ∈ node.tags :=
  List.mem_map_of_mem (self_mem_preorder node)

/-- The tags below a child are below its parent. -/
theorem tags_subset_of_mem_children
    {node child : Node}
    (isChild : child ∈ node.children) :
    child.tags ⊆ node.tags := by
  intro tag member
  obtain ⟨below, isBelow, rfl⟩ := List.mem_map.mp member
  exact List.mem_map_of_mem (mem_preorder_of_mem_children isChild isBelow)

/-! ## Changed tags -/

@[simp] theorem tag_mapTags
    (change : Tag → Tag)
    (node : Node) :
    (node.mapTags change).tag = change node.tag := by
  cases node with
  | declaration tag name base? => cases base? <;> rfl
  | rule tag isOverride name params? body => cases params? <;> rfl
  | _ => rfl

@[simp] theorem kind_mapTags
    (change : Tag → Tag)
    (node : Node) :
    (node.mapTags change).kind = node.kind := by
  cases node with
  | declaration tag name base? => cases base? <;> rfl
  | rule tag isOverride name params? body => cases params? <;> rfl
  | _ => rfl

@[simp] theorem children_mapTags
    (change : Tag → Tag)
    (node : Node) :
    (node.mapTags change).children = node.children.map (mapTags change) := by
  cases node with
  | declaration tag name base? => cases base? <;> simp [mapTags, children]
  | rule tag isOverride name params? body => cases params? <;> simp [mapTags, children]
  | _ => simp [mapTags, children]

theorem tags_mapTags
    (change : Tag → Tag)
    (tree : Node) :
    (tree.mapTags change).tags = tree.tags.map change := by
  induction tree using childInduction with
  | step node ofChildren =>
      rw [tags_eq_cons, tags_eq_cons, children_mapTags, tag_mapTags, List.map_cons,
        List.flatMap_map, List.map_flatMap, List.flatMap_def, List.flatMap_def,
        List.map_congr_left ofChildren]

/-- Two changes in a row are one. -/
theorem mapTags_mapTags
    (first second : Tag → Tag)
    (tree : Node) :
    (tree.mapTags first).mapTags second = tree.mapTags (second ∘ first) := by
  have ofMembers
      {nodes : List Node}
      (each : ∀ node ∈ nodes,
        (node.mapTags first).mapTags second = node.mapTags (second ∘ first)) :
      (nodes.map (mapTags first)).map (mapTags second) = nodes.map (mapTags (second ∘ first)) := by
    rw [List.map_map]
    exact List.map_congr_left each
  induction tree with
  | file tag preamble grammars ofPreamble ofGrammars =>
      simp only [mapTags, mapTagsAll_eq_map, ofMembers ofPreamble, ofMembers ofGrammars,
        Function.comp]
  | declaration tag name base? ofName ofBase =>
      cases base? with
      | none => simp only [mapTags, ofName, Function.comp]
      | some base => simp only [mapTags, ofName, ofBase base rfl, Function.comp]
  | rule tag isOverride name params? body ofName ofParams ofBody =>
      cases params? with
      | none => simp only [mapTags, ofName, ofBody, Function.comp]
      | some params => simp only [mapTags, ofName, ofParams params rfl, ofBody, Function.comp]
  | grammar tag first others ofFirst ofOthers
  | genericName tag first others ofFirst ofOthers
  | call tag first others ofFirst ofOthers =>
      simp only [mapTags, mapTagsAll_eq_map, ofFirst, ofMembers ofOthers, Function.comp]
  | binding tag first second ofFirst ofSecond
  | condition tag first second ofFirst ofSecond
  | action tag first second ofFirst ofSecond =>
      simp only [mapTags, ofFirst, ofSecond, Function.comp]
  | usingDirective tag only ofOnly
  | unary tag operator only ofOnly
  | fail tag only ofOnly => simp only [mapTags, ofOnly, Function.comp]
  | sequence tag members ofAll
  | choice tag members ofAll =>
      simp only [mapTags, mapTagsAll_eq_map, ofMembers ofAll, Function.comp]
  | _ => simp only [mapTags, Function.comp]

/-! ## Numbers and spans -/

/-- The numbers of a node and of all nodes below it, in preorder. -/
def ids (node : Node) : List Nat :=
  node.tags.map Tag.id

theorem ids_eq_cons (node : Node) :
    node.ids = node.id :: node.children.flatMap ids := by
  rw [ids, tags_eq_cons, List.map_cons, List.map_flatMap]
  rfl

theorem id_mem_ids (node : Node) : node.id ∈ node.ids :=
  List.mem_map_of_mem (tag_mem_tags node)

/-- No two nodes of a tree have the same number. -/
def DistinctIds (tree : Node) : Prop :=
  tree.ids.Nodup

/-- The spans of all nodes of a tree fit the source. -/
def FitsSource (source : String) (tree : Node) : Prop :=
  ∀ tag ∈ tree.tags, Text.fits source tag.span = true

instance (tree : Node) : Decidable tree.DistinctIds :=
  inferInstanceAs (Decidable tree.ids.Nodup)

instance (source : String) (tree : Node) : Decidable (tree.FitsSource source) :=
  inferInstanceAs (Decidable (∀ tag ∈ tree.tags, Text.fits source tag.span = true))

end Node
end GrammarCompiler
