import GrammarCompiler.Proofs.Positions
import Mathlib.Data.List.Pairwise

/-!
# Numbers are mentioned once

If the nodes of a tree have distinct numbers, then no number is mentioned twice
as an identifier or a call, nor twice as an argument, within all definitions of
the file.  A number therefore settles the definition and the mention.
-/

namespace GrammarCompiler

/-- A member of one list is a member of no other, if all members of the lists
together are distinct. -/
theorem eq_of_nodup_flatMap
    {inputs : List α}
    {collect : α → List β}
    (distinct : (inputs.flatMap collect).Nodup)
    {left right : α}
    (leftMember : left ∈ inputs)
    (rightMember : right ∈ inputs)
    {value : β}
    (inLeft : value ∈ collect left)
    (inRight : value ∈ collect right) :
    left = right := by
  induction inputs with
  | nil => cases leftMember
  | cons input inputs inductionHypothesis =>
      rw [List.flatMap_cons, List.nodup_append] at distinct
      obtain ⟨_, restDistinct, apart⟩ := distinct
      rw [List.mem_cons] at leftMember rightMember
      rcases leftMember with rfl | leftLater
      · rcases rightMember with rfl | rightLater
        · rfl
        · have later := List.mem_flatMap.mpr ⟨right, rightLater, inRight⟩
          exact absurd rfl (apart value inLeft value later)
      · rcases rightMember with rfl | rightLater
        · have later := List.mem_flatMap.mpr ⟨left, leftLater, inLeft⟩
          exact absurd rfl (apart value inRight value later)
        · exact inductionHypothesis restDistinct leftLater rightLater

/-- A value comes from one member only, if all values are distinct. -/
theorem eq_of_nodup_filterMap
    {inputs : List α}
    {select : α → Option β}
    (distinct : (inputs.filterMap select).Nodup)
    {left right : α}
    (leftMember : left ∈ inputs)
    (rightMember : right ∈ inputs)
    {value : β}
    (ofLeft : select left = some value)
    (ofRight : select right = some value) :
    left = right := by
  rw [List.filterMap_eq_flatMap_toList] at distinct
  exact eq_of_nodup_flatMap distinct leftMember rightMember
    (Option.mem_toList.mpr ofLeft) (Option.mem_toList.mpr ofRight)

namespace Mention

/-- The number of an identifier or a call. -/
def resolvedId? : Mention → Option Nat
  | .identifier tag => some tag.id
  | .callee id _ => some id
  | _ => none

/-- The number of an argument. -/
def argumentId? : Mention → Option Nat
  | .argument tag => some tag.id
  | _ => none

end Mention

namespace Node

/-- The walk of an expression meets the numbers of identifiers and calls in
preorder, each at most once. -/
theorem resolvedIds_sublist (node : Node) :
    (node.mentions.filterMap Mention.resolvedId?).Sublist node.ids := by
  induction node with
  | identifier tag => exact List.Sublist.refl [tag.id]
  | call tag name arguments _ ofArguments =>
      rw [ids_eq_cons, mentions, argumentMentions_eq_flatMap, List.filterMap_cons]
      simp only [Mention.resolvedId?, children, List.flatMap_cons, List.filterMap_flatMap,
        List.filterMap_cons]
      refine List.Sublist.cons_cons _ (List.Sublist.trans ?_ (List.sublist_append_right _ _))
      refine List.Sublist.flatMap_right arguments fun argument member => ?_
      split
      · exact ofArguments argument member
      · exact List.nil_sublist _
  | binding tag operand other ofOperand _ =>
      rw [ids_eq_cons, mentions, List.filterMap_cons]
      simp only [Mention.resolvedId?, children, List.flatMap_cons]
      exact (ofOperand.trans (List.sublist_append_left _ _)).cons _
  | unary tag operator operand ofOperand =>
      rw [ids_eq_cons, mentions]
      simp only [children, List.flatMap_singleton]
      exact ofOperand.cons _
  | condition tag operand other ofOperand _
  | action tag operand other ofOperand _ =>
      rw [ids_eq_cons, mentions]
      simp only [children, List.flatMap_cons]
      exact (ofOperand.trans (List.sublist_append_left _ _)).cons _
  | sequence tag members ofMembers
  | choice tag members ofMembers =>
      rw [ids_eq_cons, mentions, mentionsAll_eq_flatMap, List.filterMap_flatMap]
      exact (List.Sublist.flatMap_right members ofMembers).cons _
  | _ => exact List.nil_sublist _

/-- The walk of an expression meets the numbers of arguments below it in
preorder, each at most once. -/
theorem cons_argumentIds_sublist (node : Node) :
    (node.id :: node.mentions.filterMap Mention.argumentId?).Sublist node.ids := by
  rw [ids_eq_cons]
  apply List.Sublist.cons_cons
  induction node with
  | call tag name arguments _ ofArguments =>
      rw [mentions, argumentMentions_eq_flatMap, List.filterMap_cons]
      simp only [Mention.argumentId?, children, List.flatMap_cons, List.filterMap_flatMap,
        List.filterMap_cons]
      refine List.Sublist.trans ?_ (List.sublist_append_right _ _)
      refine List.Sublist.flatMap_right arguments fun argument member => ?_
      rw [ids_eq_cons]
      apply List.Sublist.cons_cons
      split
      · exact ofArguments argument member
      · exact List.nil_sublist _
  | binding tag operand other ofOperand _ =>
      rw [mentions, List.filterMap_cons]
      simp only [Mention.argumentId?, children, List.flatMap_cons, ids_eq_cons operand]
      exact (ofOperand.cons _).trans (List.sublist_append_left _ _)
  | unary tag operator operand ofOperand =>
      simp only [mentions, children, List.flatMap_singleton, ids_eq_cons operand]
      exact ofOperand.cons _
  | condition tag operand other ofOperand _
  | action tag operand other ofOperand _ =>
      simp only [mentions, children, List.flatMap_cons, ids_eq_cons operand]
      exact (ofOperand.cons _).trans (List.sublist_append_left _ _)
  | sequence tag members ofMembers
  | choice tag members ofMembers =>
      rw [mentions, mentionsAll_eq_flatMap, List.filterMap_flatMap]
      refine List.Sublist.flatMap_right members fun member inMembers => ?_
      rw [ids_eq_cons]
      exact (ofMembers member inMembers).cons _
  | _ => exact List.nil_sublist _

theorem argumentIds_sublist (node : Node) :
    (node.mentions.filterMap Mention.argumentId?).Sublist node.ids :=
  (List.sublist_cons_self _ _).trans (cons_argumentIds_sublist node)

/-! ## All definitions of a file -/

theorem ruleExpressions_sublist_children (node : Node) :
    node.ruleExpressions.Sublist node.children := by
  cases node with
  | rule tag isOverride name params? body => exact List.sublist_cons_self _ _
  | _ => exact List.nil_sublist _

theorem grammarDefinitions_sublist_definitions (node : Node) :
    node.grammarDefinitions.Sublist node.definitions := by
  cases node with
  | grammar tag header body =>
      rw [grammarDefinitions, definitions]
      exact List.sublist_append_right _ _
  | _ => exact List.nil_sublist _

theorem fileDefinitions_sublist_definitions (tree : Node) :
    tree.fileDefinitions.Sublist tree.definitions := by
  cases tree with
  | file tag preamble grammars =>
      rw [fileDefinitions, definitions, definitionsAll_eq_flatMap, definitionsAll_eq_flatMap]
      have ofGrammars := List.Sublist.flatMap_right grammars fun node _ =>
        grammarDefinitions_sublist_definitions node
      exact ofGrammars.trans (List.sublist_append_right _ _)
  | _ => exact List.nil_sublist _

section

variable {select : Mention → Option Nat}
variable (ofMentions : ∀ node : Node, (node.mentions.filterMap select).Sublist node.ids)

include ofMentions

/-- Numbers that expressions mention at most once are mentioned at most once in
all definitions of a tree. -/
theorem mentionedIds_sublist (node : Node) :
    (node.definitions.flatMap fun definition =>
      definition.mentions.filterMap select).Sublist node.ids := by
  induction node using childInduction with
  | step node inductionHypothesis =>
      rw [ids_eq_cons]
      apply List.Sublist.cons
      by_cases isRule : node.kind = .rule
      · obtain ⟨definition, single⟩ := exists_definitions_eq_singleton isRule
        rw [single, List.flatMap_singleton, mentions_eq_flatMap_ruleExpressions isRule single,
          List.filterMap_flatMap]
        exact (List.Sublist.flatMap_right _ fun expression _ => ofMentions expression).trans
          ((ruleExpressions_sublist_children node).flatMap ids)
      · rw [definitions_eq_flatMap_children isRule, List.flatMap_assoc]
        exact List.Sublist.flatMap_right _ inductionHypothesis

/-- In a tree with distinct numbers, a number settles the definition that
mentions it and the mention. -/
theorem DistinctIds.mention_unique
    {tree : Node}
    (distinct : tree.DistinctIds)
    {left right : Definition}
    (leftMember : left ∈ tree.fileDefinitions)
    (rightMember : right ∈ tree.fileDefinitions)
    {leftMention rightMention : Mention}
    (inLeft : leftMention ∈ left.mentions)
    (inRight : rightMention ∈ right.mentions)
    {id : Nat}
    (ofLeft : select leftMention = some id)
    (ofRight : select rightMention = some id) :
    left = right ∧ leftMention = rightMention := by
  have allDistinct : (tree.fileDefinitions.flatMap fun definition =>
      definition.mentions.filterMap select).Nodup :=
    distinct.sublist (((fileDefinitions_sublist_definitions tree).flatMap _).trans
      (mentionedIds_sublist ofMentions tree))
  have sameDefinition : left = right :=
    eq_of_nodup_flatMap allDistinct leftMember rightMember
      (List.mem_filterMap.mpr ⟨leftMention, inLeft, ofLeft⟩)
      (List.mem_filterMap.mpr ⟨rightMention, inRight, ofRight⟩)
  subst sameDefinition
  refine ⟨rfl, ?_⟩
  exact eq_of_nodup_filterMap ((List.nodup_flatMap.mp allDistinct).1 left leftMember)
    inLeft inRight ofLeft ofRight

end

end Node
end GrammarCompiler
