import GrammarCompiler.Proofs.TreeInduction
import GrammarCompiler.Tree.Flatten
import Mathlib.Data.List.Flatten

/-!
# Laws of flattening

Flattening keeps the tag and the kind of a node, and the tags that are left
stand in their former order.  Two flattenings in a row are one flattening of
all groups that either of them flattens.
-/

namespace GrammarCompiler

namespace Flattening

/-- Flatten the groups that either of two flattenings flattens. -/
def union (first second : Flattening) : Flattening where
  choices := first.choices || second.choices
  sequences := first.sequences || second.sequences

@[simp] theorem union_ofAll (flattening : Flattening) :
    flattening.union .ofAll = .ofAll := by
  simp [union, ofAll]

@[simp] theorem union_self (flattening : Flattening) :
    flattening.union flattening = flattening := by
  simp [union]

theorem union_ofChoices_ofSequences : ofChoices.union .ofSequences = .ofAll := rfl

theorem union_ofSequences_ofChoices : ofSequences.union .ofChoices = .ofAll := rfl

end Flattening

namespace Node

@[simp] theorem tag_flatten
    (flattening : Flattening)
    (node : Node) :
    (node.flatten flattening).tag = node.tag := by
  cases node with
  | rule tag isOverride name params? body => cases params? <;> simp only [flatten] <;> rfl
  | _ => simp only [flatten] <;> rfl

@[simp] theorem kind_flatten
    (flattening : Flattening)
    (node : Node) :
    (node.flatten flattening).kind = node.kind := by
  cases node with
  | rule tag isOverride name params? body => cases params? <;> simp only [flatten] <;> rfl
  | _ => simp only [flatten] <;> rfl

@[simp] theorem isExpression_flatten
    (flattening : Flattening)
    (node : Node) :
    (node.flatten flattening).isExpression = node.isExpression := by
  simp [isExpression]

/-! ## Replacing groups by their members -/

/-- Replace nodes by their members, where the members of a node are the node
itself unless it is a group of one kind.  Nothing is replaced if the kind is
not to be flattened. -/
def splice
    (active : Bool)
    (members : Node → List Node)
    (nodes : List Node) : List Node :=
  if active then nodes.flatMap members else nodes

theorem spliceSequences_eq_splice (flattening : Flattening) :
    spliceSequences flattening = splice flattening.sequences sequenceItems := rfl

theorem spliceChoices_eq_splice (flattening : Flattening) :
    spliceChoices flattening = splice flattening.choices choiceAlternatives := rfl

theorem splice_append
    (active : Bool)
    (members : Node → List Node)
    (left right : List Node) :
    splice active members (left ++ right) =
      splice active members left ++ splice active members right := by
  unfold splice
  split
  · exact List.flatMap_append
  · rfl

/-- What is collected from nodes does not change when groups are replaced by
their members, if a group contributes what its members contribute. -/
theorem flatMap_splice
    {members : Node → List Node}
    {collect : Node → List α}
    (ofMembers : ∀ node, (members node).flatMap collect = collect node)
    (active : Bool)
    (nodes : List Node) :
    (splice active members nodes).flatMap collect = nodes.flatMap collect := by
  unfold splice
  split
  · simp only [List.flatMap_assoc, ofMembers]
  · rfl

/-- Splicing, changing the nodes and splicing again is changing the nodes and
splicing once, if the changed members of a group are those of the changed
group. -/
theorem splice_map_splice
    {members : Node → List Node}
    {change : Node → Node}
    {second : Bool}
    (ofMembers : ∀ node,
      splice second members ((members node).map change) = members (change node))
    (first : Bool)
    (nodes : List Node) :
    splice second members ((splice first members nodes).map change) =
      splice (first || second) members (nodes.map change) := by
  cases first with
  | false => simp [splice]
  | true =>
      induction nodes with
      | nil => simp [splice]
      | cons node nodes inductionHypothesis =>
          have ofCons :
              splice true members (node :: nodes) =
                members node ++ splice true members nodes := by
            simp [splice]
          rw [ofCons, List.map_append, splice_append, ofMembers, inductionHypothesis]
          simp [splice]

theorem sequenceItems_of_kind_ne
    {node : Node}
    (different : node.kind ≠ .sequence) :
    node.sequenceItems = [node] := by
  cases node with
  | sequence tag items => exact absurd rfl different
  | _ => rfl

theorem choiceAlternatives_of_kind_ne
    {node : Node}
    (different : node.kind ≠ .choice) :
    node.choiceAlternatives = [node] := by
  cases node with
  | choice tag alternatives => exact absurd rfl different
  | _ => rfl

/-- A sequence stands for its items in what is collected. -/
theorem flatMap_sequenceItems
    {collect : Node → List α}
    (ofSequence : ∀ tag items, collect (sequence tag items) = items.flatMap collect)
    (node : Node) :
    node.sequenceItems.flatMap collect = collect node := by
  cases node with
  | sequence tag items => exact (ofSequence tag items).symm
  | _ => exact List.flatMap_singleton collect _

/-- A choice stands for its alternatives in what is collected. -/
theorem flatMap_choiceAlternatives
    {collect : Node → List α}
    (ofChoice : ∀ tag alternatives,
      collect (choice tag alternatives) = alternatives.flatMap collect)
    (node : Node) :
    node.choiceAlternatives.flatMap collect = collect node := by
  cases node with
  | choice tag alternatives => exact (ofChoice tag alternatives).symm
  | _ => exact List.flatMap_singleton collect _

/-- A node of another kind is the only node it contributes. -/
theorem splice_singleton
    {members : Node → List Node}
    {node : Node}
    (alone : members node = [node])
    (active : Bool) :
    splice active members [node] = [node] := by
  cases active <;> simp [splice, alone]

/-- The items of a flattened sequence are its flattened items, spliced once
more. -/
theorem splice_flatten_sequenceItems
    (flattening : Flattening)
    (node : Node) :
    splice flattening.sequences sequenceItems
        (node.sequenceItems.map (flatten flattening)) =
      (node.flatten flattening).sequenceItems := by
  by_cases isSequence : node.kind = .sequence
  · cases node with
    | sequence tag items =>
        simp [sequenceItems, flatten, spliceSequences_eq_splice]
    | _ => cases isSequence
  · have different : (node.flatten flattening).kind ≠ .sequence := by
      simpa using isSequence
    have alone := sequenceItems_of_kind_ne different
    rw [sequenceItems_of_kind_ne isSequence, List.map_singleton, alone]
    exact splice_singleton alone flattening.sequences

/-- The alternatives of a flattened choice are its flattened alternatives,
spliced once more. -/
theorem splice_flatten_choiceAlternatives
    (flattening : Flattening)
    (node : Node) :
    splice flattening.choices choiceAlternatives
        (node.choiceAlternatives.map (flatten flattening)) =
      (node.flatten flattening).choiceAlternatives := by
  by_cases isChoice : node.kind = .choice
  · cases node with
    | choice tag alternatives =>
        simp [choiceAlternatives, flatten, spliceChoices_eq_splice]
    | _ => cases isChoice
  · have different : (node.flatten flattening).kind ≠ .choice := by
      simpa using isChoice
    have alone := choiceAlternatives_of_kind_ne different
    rw [choiceAlternatives_of_kind_ne isChoice, List.map_singleton, alone]
    exact splice_singleton alone flattening.choices

/-! ## Two flattenings in a row -/

/-- Two flattenings in a row flatten the groups that either of them
flattens. -/
theorem flatten_flatten
    (first second : Flattening)
    (node : Node) :
    (node.flatten first).flatten second = node.flatten (first.union second) := by
  induction node with
  | sequence tag items inductionHypothesis =>
      simp only [flatten, flattenAll_eq_map, spliceSequences_eq_splice]
      rw [splice_map_splice (splice_flatten_sequenceItems second), List.map_map]
      exact congrArg (fun nodes => sequence tag (splice _ sequenceItems nodes))
        (List.map_congr_left inductionHypothesis)
  | choice tag alternatives inductionHypothesis =>
      simp only [flatten, flattenAll_eq_map, spliceChoices_eq_splice]
      rw [splice_map_splice (splice_flatten_choiceAlternatives second), List.map_map]
      exact congrArg (fun nodes => choice tag (splice _ choiceAlternatives nodes))
        (List.map_congr_left inductionHypothesis)
  | file tag other members _ inductionHypothesis
  | grammar tag other members _ inductionHypothesis
  | call tag other members _ inductionHypothesis =>
      simp only [flatten, flattenAll_eq_map, List.map_map]
      exact congrArg _ (List.map_congr_left inductionHypothesis)
  | rule tag isOverride name params? body _ ofParams ofBody =>
      cases params? with
      | none => simp only [flatten, ofBody]
      | some params => simp only [flatten, ofBody, ofParams params rfl]
  | unary tag operator operand ofOperand => simp only [flatten, ofOperand]
  | binding tag operand other ofOperand
  | condition tag operand other ofOperand
  | action tag operand other ofOperand => simp only [flatten, ofOperand]
  | _ => simp only [flatten]

/-- Flattening before optimization changes nothing. -/
@[simp] theorem optimize_flatten
    (flattening : Flattening)
    (node : Node) :
    (node.flatten flattening).optimize = node.optimize := by
  rw [optimize, flatten_flatten, Flattening.union_ofAll, optimize]

/-- Flattening leaves nothing to flatten. -/
theorem flatten_flatten_self
    (flattening : Flattening)
    (node : Node) :
    (node.flatten flattening).flatten flattening = node.flatten flattening := by
  rw [flatten_flatten, Flattening.union_self]

/-- One walk that flattens all groups does what a walk for each kind of group does,
in either order.  A walk before it makes no difference, and no walk makes a
difference a second time.  The trees are the same with all numbers, spans and
memos. -/
theorem fused_walk_eq_staged_walks (tree : Node) :
    tree.optimize = (tree.flatten .ofChoices).flatten .ofSequences ∧
      tree.optimize = (tree.flatten .ofSequences).flatten .ofChoices ∧
      (tree.flatten .ofChoices).optimize = tree.optimize ∧
      (tree.flatten .ofSequences).optimize = tree.optimize ∧
      (tree.flatten .ofChoices).flatten .ofChoices = tree.flatten .ofChoices ∧
      (tree.flatten .ofSequences).flatten .ofSequences = tree.flatten .ofSequences ∧
      tree.optimize.optimize = tree.optimize := by
  refine ⟨?_, ?_, optimize_flatten _ tree, optimize_flatten _ tree, flatten_flatten_self _ tree,
    flatten_flatten_self _ tree, flatten_flatten_self _ tree⟩
  · rw [flatten_flatten, Flattening.union_ofChoices_ofSequences, optimize]
  · rw [flatten_flatten, Flattening.union_ofSequences_ofChoices, optimize]

/-! ## The tags that are left -/

/-- Replacing groups by their members leaves part of what is collected, if a
group contributes at least what its members contribute. -/
theorem flatMap_splice_sublist
    {members : Node → List Node}
    {collect : Node → List α}
    (ofMembers : ∀ node, ((members node).flatMap collect).Sublist (collect node))
    (active : Bool)
    (nodes : List Node) :
    ((splice active members nodes).flatMap collect).Sublist (nodes.flatMap collect) := by
  unfold splice
  split
  · rw [List.flatMap_assoc]
    exact List.Sublist.flatMap_right nodes fun node _ => ofMembers node
  · exact List.Sublist.refl _

theorem flatMap_tags_sequenceItems_sublist (node : Node) :
    (node.sequenceItems.flatMap tags).Sublist node.tags := by
  by_cases isSequence : node.kind = .sequence
  · cases node with
    | sequence tag items =>
        rw [tags_eq_cons]
        exact List.sublist_cons_self _ _
    | _ => cases isSequence
  · simp [sequenceItems_of_kind_ne isSequence]

theorem flatMap_tags_choiceAlternatives_sublist (node : Node) :
    (node.choiceAlternatives.flatMap tags).Sublist node.tags := by
  by_cases isChoice : node.kind = .choice
  · cases node with
    | choice tag alternatives =>
        rw [tags_eq_cons]
        exact List.sublist_cons_self _ _
    | _ => cases isChoice
  · simp [choiceAlternatives_of_kind_ne isChoice]

/-- A node keeps its own tag, so only the tags of the children matter. -/
theorem tags_flatten_sublist_of_children
    {flattening : Flattening}
    {node : Node}
    (ofChildren : ((node.flatten flattening).children.flatMap tags).Sublist
      (node.children.flatMap tags)) :
    (node.flatten flattening).tags.Sublist node.tags := by
  rw [tags_eq_cons, tags_eq_cons node, tag_flatten]
  exact ofChildren.cons_cons node.tag

/-- Flattening only removes tags: those that are left stand in their former
order. -/
theorem tags_flatten_sublist
    (flattening : Flattening)
    (node : Node) :
    (node.flatten flattening).tags.Sublist node.tags := by
  have ofMembers
      {nodes : List Node}
      (each : ∀ node ∈ nodes, (node.flatten flattening).tags.Sublist node.tags) :
      ((nodes.map (Node.flatten flattening)).flatMap tags).Sublist (nodes.flatMap tags) := by
    rw [List.flatMap_map]
    exact List.Sublist.flatMap_right nodes each
  induction node with
  | sequence tag items ofItems =>
      apply tags_flatten_sublist_of_children
      simp only [Node.flatten, flattenAll_eq_map, spliceSequences_eq_splice, children]
      exact (flatMap_splice_sublist flatMap_tags_sequenceItems_sublist _ _).trans
        (ofMembers ofItems)
  | choice tag alternatives ofAlternatives =>
      apply tags_flatten_sublist_of_children
      simp only [Node.flatten, flattenAll_eq_map, spliceChoices_eq_splice, children]
      exact (flatMap_splice_sublist flatMap_tags_choiceAlternatives_sublist _ _).trans
        (ofMembers ofAlternatives)
  | file tag preamble grammars _ ofGrammars =>
      apply tags_flatten_sublist_of_children
      simp only [Node.flatten, flattenAll_eq_map, children, List.flatMap_append]
      exact (List.Sublist.refl _).append (ofMembers ofGrammars)
  | grammar tag other members _ ofRest
  | call tag other members _ ofRest =>
      apply tags_flatten_sublist_of_children
      simp only [Node.flatten, flattenAll_eq_map, children, List.flatMap_cons]
      exact (List.Sublist.refl _).append (ofMembers ofRest)
  | rule tag isOverride name params? body _ ofParams ofBody =>
      apply tags_flatten_sublist_of_children
      cases params? with
      | none =>
          simp only [Node.flatten, children, Option.toList_none, List.nil_append,
            List.flatMap_cons, List.flatMap_nil, List.append_nil]
          exact (List.Sublist.refl _).append ofBody
      | some params =>
          simp only [Node.flatten, children, Option.toList_some, List.cons_append,
            List.nil_append, List.flatMap_cons, List.flatMap_nil, List.append_nil]
          exact (List.Sublist.refl _).append ((ofParams params rfl).append ofBody)
  | unary tag operator operand ofOperand =>
      apply tags_flatten_sublist_of_children
      simp only [Node.flatten, children, List.flatMap_singleton]
      exact ofOperand
  | binding tag operand other ofOperand
  | condition tag operand other ofOperand
  | action tag operand other ofOperand =>
      apply tags_flatten_sublist_of_children
      simp only [Node.flatten, children, List.flatMap_cons]
      exact ofOperand.append (List.Sublist.refl _)
  | _ =>
      simp only [Node.flatten]
      exact List.Sublist.refl _

/-- Flattening keeps the numbers distinct. -/
theorem DistinctIds.flatten
    {tree : Node}
    (distinct : tree.DistinctIds)
    (flattening : Flattening) :
    (tree.flatten flattening).DistinctIds :=
  List.Nodup.sublist ((tags_flatten_sublist flattening tree).map Tag.id) distinct

/-- Flattening keeps the spans inside the source. -/
theorem FitsSource.flatten
    {source : String}
    {tree : Node}
    (fitting : tree.FitsSource source)
    (flattening : Flattening) :
    (tree.flatten flattening).FitsSource source :=
  fun tag member => fitting tag ((tags_flatten_sublist flattening tree).subset member)

end Node
end GrammarCompiler
