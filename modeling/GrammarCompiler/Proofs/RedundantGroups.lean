import GrammarCompiler.Proofs.Flattening
import GrammarCompiler.Proofs.WalkOrder

/-!
# The groups that flattening removes

A place of a tree is folded if flattening goes on through every node on the way
from the root to it.  A group is redundant if it stands in a folded place and its
parent is a group of the same kind.  Flattening removes the redundant groups, and
only those: all other nodes are met in the same order as before, and what stands
in places that are not folded is left as it is.
-/

namespace GrammarCompiler

namespace Flattening

/-- Flatten no groups. -/
def ofNone : Flattening := { choices := false, sequences := false }

/-- Whether groups of a kind are flattened. -/
def flattens (flattening : Flattening) : Kind → Bool
  | .sequence => flattening.sequences
  | .choice => flattening.choices
  | _ => false

@[simp] theorem flattens_ofNone (kind : Kind) : ofNone.flattens kind = false := by
  cases kind <;> rfl

end Flattening

namespace Node

/-! ## Folded places -/

/-- The children of a node in source order, each with the answer whether
flattening goes on to it. -/
def branches : Node → List (Bool × Node)
  | file _ preamble grammars => preamble.map (false, ·) ++ grammars.map (true, ·)
  | usingDirective _ target => [(false, target)]
  | grammar _ header body => (false, header) :: body.map (true, ·)
  | declaration _ name base? => (false, name) :: base?.toList.map (false, ·)
  | genericName _ name parameters => (false, name) :: parameters.map (false, ·)
  | rule _ _ name params? body =>
      (false, name) :: (params?.toList.map (true, ·) ++ [(true, body)])
  | call _ name arguments => (false, name) :: arguments.map (true, ·)
  | unary _ _ operand => [(true, operand)]
  | binding _ operand captured => [(true, operand), (false, captured)]
  | condition _ operand test => [(true, operand), (false, test)]
  | action _ operand block => [(true, operand), (false, block)]
  | sequence _ items => items.map (true, ·)
  | choice _ alternatives => alternatives.map (true, ·)
  | fail _ message => [(false, message)]
  | comment _ | code _ | literal _ | identifier _ | any _ => []

theorem map_snd_branches (node : Node) :
    node.branches.map Prod.snd = node.children := by
  cases node <;> simp [branches, children, Function.comp_def]

theorem mem_children_of_mem_branches
    {node : Node}
    {branch : Bool × Node}
    (member : branch ∈ node.branches) :
    branch.2 ∈ node.children :=
  map_snd_branches node ▸ List.mem_map_of_mem member

end Node

/-- A node where it stands in a tree. -/
structure Placement where
  node : Node
  /-- Flattening reaches the place. -/
  isFolded : Bool
  /-- The kind of the parent; the root has none. -/
  parent? : Option Kind

namespace Placement

/-- The node is a group below a group of the same kind, and flattening reaches
it. -/
def isRedundant (flattening : Flattening) (placement : Placement) : Bool :=
  placement.isFolded && placement.parent? = some placement.node.kind &&
    flattening.flattens placement.node.kind

theorem isRedundant_iff
    {flattening : Flattening}
    {node : Node}
    {kind : Kind} :
    isRedundant flattening ⟨node, true, some kind⟩ = true ↔
      node.kind = kind ∧ flattening.flattens kind = true := by
  simp only [isRedundant, Bool.true_and, Bool.and_eq_true, decide_eq_true_eq,
    Option.some.injEq]
  constructor
  · rintro ⟨rfl, flattened⟩
    exact ⟨rfl, flattened⟩
  · rintro ⟨rfl, flattened⟩
    exact ⟨rfl, flattened⟩

@[simp] theorem isRedundant_ofNone (placement : Placement) :
    placement.isRedundant .ofNone = false := by
  simp [isRedundant]

/-- The node with all that stands below it, if its place is not folded. -/
def untouched? (placement : Placement) : Option Node :=
  if placement.isFolded then none else some placement.node

/-- Redundant groups stand in folded places. -/
theorem untouched?_of_isRedundant
    {flattening : Flattening}
    {placement : Placement}
    (redundant : placement.isRedundant flattening = true) :
    placement.untouched? = none := by
  have folded : placement.isFolded = true := by
    simp only [isRedundant, Bool.and_eq_true] at redundant
    exact redundant.1.1
  simp [untouched?, folded]

end Placement

/-- What identifies a node: its number, its span and the name of its kind. -/
def Node.label (node : Node) : Nat × Span × String :=
  (node.id, node.span, node.kind.name)

/-- What identifies a node, and the node itself if its place is not folded. -/
abbrev Outline := (Nat × Span × String) × Option Node

/-- The outline of a node where it stands. -/
def Placement.outline (placement : Placement) : Outline :=
  (placement.node.label, placement.untouched?)

/-- The outlines of nodes that are no redundant groups. -/
def keptOutlines (flattening : Flattening) (placements : List Placement) : List Outline :=
  (placements.filter fun placement => !placement.isRedundant flattening).map (·.outline)

theorem keptOutlines_cons
    (flattening : Flattening)
    (placement : Placement)
    (placements : List Placement) :
    keptOutlines flattening (placement :: placements) =
      if placement.isRedundant flattening then keptOutlines flattening placements
      else placement.outline :: keptOutlines flattening placements := by
  cases redundant : placement.isRedundant flattening <;> simp [keptOutlines, redundant]

namespace Node

/-- The nodes of a tree where they stand, each before its children.  The tree
itself may stand anywhere. -/
def placements (isFolded : Bool) (parent? : Option Kind) (node : Node) : List Placement :=
  ⟨node, isFolded, parent?⟩ ::
    node.branches.attach.flatMap fun ⟨branch, _⟩ =>
      branch.2.placements (isFolded && branch.1) (some node.kind)
termination_by node.size
decreasing_by
  next member => exact size_lt_of_mem_children (mem_children_of_mem_branches member)

theorem placements_eq_cons
    (isFolded : Bool)
    (parent? : Option Kind)
    (node : Node) :
    node.placements isFolded parent? =
      ⟨node, isFolded, parent?⟩ ::
        node.branches.flatMap fun branch =>
          branch.2.placements (isFolded && branch.1) (some node.kind) := by
  rw [placements, List.flatMap_subtype (fun _ _ => rfl), List.unattach_attach]

/-- The nodes of a whole tree where they stand. -/
def placed (tree : Node) : List Placement :=
  tree.placements true none

/-- The redundant groups of a tree. -/
def redundantGroups (flattening : Flattening) (tree : Node) : List Placement :=
  tree.placed.filter (·.isRedundant flattening)

/-- The nodes of a tree that are no redundant groups. -/
def keptNodes (flattening : Flattening) (tree : Node) : List Placement :=
  tree.placed.filter fun placement => !placement.isRedundant flattening

@[simp] theorem label_flatten
    (flattening : Flattening)
    (node : Node) :
    (node.flatten flattening).label = node.label := by
  simp [label, id, span]

/-- The places of a tree hold its nodes in preorder. -/
theorem map_node_placements
    (isFolded : Bool)
    (parent? : Option Kind)
    (node : Node) :
    (node.placements isFolded parent?).map (·.node) = node.preorder := by
  induction node using childInduction generalizing isFolded parent? with
  | step node ofChildren =>
      rw [placements_eq_cons, preorder_eq_cons, ← map_snd_branches, List.flatMap_map,
        List.map_cons, List.map_flatMap]
      congr 1
      apply List.flatMap_congr
      intro branch member
      exact ofChildren branch.2 (mem_children_of_mem_branches member) _ _

theorem map_node_placed (tree : Node) : tree.placed.map (·.node) = tree.preorder :=
  map_node_placements true none tree

/-! ## Places that are not folded -/

theorem isFolded_of_mem_placements
    {node : Node}
    {parent? : Option Kind}
    {placement : Placement}
    (member : placement ∈ node.placements false parent?) :
    placement.isFolded = false := by
  induction node using childInduction generalizing parent? with
  | step node ofChildren =>
      rw [placements_eq_cons] at member
      rcases List.mem_cons.mp member with rfl | below
      · rfl
      · obtain ⟨branch, isBranch, inBranch⟩ := List.mem_flatMap.mp below
        exact ofChildren branch.2 (mem_children_of_mem_branches isBranch) inBranch

/-- Below a place that is not folded no group is redundant and all nodes are left
as they are. -/
theorem keptOutlines_of_not_folded
    (flattening : Flattening)
    (parent? : Option Kind)
    (node : Node) :
    keptOutlines flattening (node.placements false parent?) =
      node.preorder.map fun below => (below.label, some below) := by
  have notRedundant (placement : Placement) (member : placement ∈ node.placements false parent?) :
      (!placement.isRedundant flattening) = true := by
    simp [Placement.isRedundant, isFolded_of_mem_placements member]
  rw [keptOutlines, List.filter_eq_self.mpr notRedundant, ← map_node_placements false parent?,
    List.map_map]
  apply List.map_congr_left
  intro placement member
  simp [Placement.outline, Placement.untouched?, isFolded_of_mem_placements member]

/-! ## What stands below a folded place -/

/-- The outlines of what stands below a node in a folded place, without redundant
groups. -/
def keptBelow (flattening : Flattening) (node : Node) : List Outline :=
  keptOutlines flattening
    (node.branches.flatMap fun branch => branch.2.placements branch.1 (some node.kind))

/-- The outlines of a child and of what stands below it, without redundant groups.
The child itself is left out if it is redundant below a node of the given kind. -/
def keptBranch (flattening : Flattening) (kind : Kind) (branch : Bool × Node) : List Outline :=
  if branch.1 then
    if branch.2.kind = kind ∧ flattening.flattens kind then keptBelow flattening branch.2
    else (branch.2.label, none) :: keptBelow flattening branch.2
  else branch.2.preorder.map fun below => (below.label, some below)

theorem keptOutlines_placements
    (flattening : Flattening)
    (kind : Kind)
    (branch : Bool × Node) :
    keptOutlines flattening (branch.2.placements branch.1 (some kind)) =
      keptBranch flattening kind branch := by
  obtain ⟨isFolded, node⟩ := branch
  cases isFolded with
  | false => exact keptOutlines_of_not_folded flattening (some kind) node
  | true =>
      rw [placements_eq_cons, keptOutlines_cons]
      simp only [Placement.isRedundant_iff, Bool.true_and, Placement.outline,
        Placement.untouched?, if_true, keptBranch, keptBelow]

theorem keptBelow_eq_flatMap
    (flattening : Flattening)
    (node : Node) :
    keptBelow flattening node = node.branches.flatMap (keptBranch flattening node.kind) := by
  rw [keptBelow, keptOutlines, List.filter_flatMap, List.map_flatMap]
  exact List.flatMap_congr fun branch _ => keptOutlines_placements flattening node.kind branch

/-! ## The branches of a flattened node -/

/-- Flatten a child if flattening goes on to it. -/
def flattenBranch (flattening : Flattening) (branch : Bool × Node) : Bool × Node :=
  (branch.1, if branch.1 then branch.2.flatten flattening else branch.2)

/-- A node that is no group to be flattened keeps its children apart from what is
flattened below them. -/
theorem branches_flatten
    {flattening : Flattening}
    {node : Node}
    (kept : flattening.flattens node.kind = false) :
    (node.flatten flattening).branches = node.branches.map (flattenBranch flattening) := by
  cases node with
  | sequence tag items =>
      have inactive : flattening.sequences = false := kept
      simp [flatten, branches, spliceSequences, inactive, flattenBranch]
  | choice tag alternatives =>
      have inactive : flattening.choices = false := kept
      simp [flatten, branches, spliceChoices, inactive, flattenBranch]
  | rule tag isOverride name params? body =>
      cases params? <;> simp [flatten, branches, flattenBranch]
  | _ => simp [flatten, branches, flattenBranch, Function.comp_def]

/-- A group for its members, if it is of the given kind; any other node stands for
itself. -/
def membersOf (kind : Kind) (node : Node) : List Node :=
  if node.kind = kind then node.children else [node]

theorem sequenceItems_eq_membersOf : sequenceItems = membersOf .sequence := by
  funext node
  cases node <;> rfl

theorem choiceAlternatives_eq_membersOf : choiceAlternatives = membersOf .choice := by
  funext node
  cases node <;> rfl

/-- Flattening goes on to all members of a group. -/
theorem branches_of_flattens
    {flattening : Flattening}
    {node : Node}
    (flattened : flattening.flattens node.kind = true) :
    node.branches = node.children.map (true, ·) := by
  cases node with
  | sequence tag items => rfl
  | choice tag alternatives => rfl
  | _ => cases flattened

/-- The members of a flattened group are those of its flattened members that are
groups of the same kind, and its other flattened members. -/
theorem children_flatten
    {flattening : Flattening}
    {node : Node}
    (flattened : flattening.flattens node.kind = true) :
    (node.flatten flattening).children =
      node.children.flatMap fun child => (child.flatten flattening).membersOf node.kind := by
  cases node with
  | sequence tag items =>
      have active : flattening.sequences = true := flattened
      simp [flatten, children, spliceSequences, active, List.flatMap_map, kind,
        sequenceItems_eq_membersOf]
  | choice tag alternatives =>
      have active : flattening.choices = true := flattened
      simp [flatten, children, spliceChoices, active, List.flatMap_map, kind,
        choiceAlternatives_eq_membersOf]
  | _ => cases flattened

/-! ## What flattening keeps -/

/-- Below a flattened node stands what stood below the node, without the groups that
were redundant there. -/
theorem keptBelow_flatten
    (flattening : Flattening)
    (node : Node) :
    keptBelow .ofNone (node.flatten flattening) = keptBelow flattening node := by
  -- A node that is no group to be flattened keeps its children.  A group takes the members
  -- of the groups among its flattened children, and for those groups the induction
  -- hypothesis says what stands below them.
  induction node using childInduction with
  | step node ofChildren =>
      rw [keptBelow_eq_flatMap, keptBelow_eq_flatMap]
      cases flattened : flattening.flattens node.kind with
      | false =>
          rw [branches_flatten flattened, List.flatMap_map]
          apply List.flatMap_congr
          intro branch member
          have ofBranch := ofChildren branch.2 (mem_children_of_mem_branches member)
          obtain ⟨isFolded, child⟩ := branch
          cases isFolded with
          | false => simp [keptBranch, flattenBranch]
          | true => simp [keptBranch, flattenBranch, flattened, ofBranch]
      | true =>
          have flattenedAgain : flattening.flattens (node.flatten flattening).kind = true := by
            rw [kind_flatten, flattened]
          rw [branches_of_flattens flattenedAgain, branches_of_flattens flattened,
            children_flatten flattened, List.flatMap_map, List.flatMap_map, List.flatMap_assoc]
          apply List.flatMap_congr
          intro child isChild
          by_cases sameKind : child.kind = node.kind
          · have childFlattened : flattening.flattens (child.flatten flattening).kind = true := by
              rw [kind_flatten, sameKind, flattened]
            have ofChild := ofChildren child isChild
            rw [keptBelow_eq_flatMap, branches_of_flattens childFlattened, List.flatMap_map]
              at ofChild
            simp [membersOf, sameKind, keptBranch, flattened, ← ofChild]
          · simp [membersOf, sameKind, keptBranch, ofChildren child isChild]

/-- The root is no redundant group. -/
theorem keptOutlines_placed
    (flattening : Flattening)
    (tree : Node) :
    keptOutlines flattening tree.placed = (tree.label, none) :: keptBelow flattening tree := by
  rw [placed, placements_eq_cons, keptOutlines_cons]
  simp [Placement.isRedundant, Placement.outline, Placement.untouched?, keptBelow]

/-- Flattening leaves the outlines of all nodes that are no redundant groups. -/
theorem map_outline_placed_flatten
    (flattening : Flattening)
    (tree : Node) :
    (tree.flatten flattening).placed.map (·.outline) =
      (tree.keptNodes flattening).map (·.outline) :=
  calc
    (tree.flatten flattening).placed.map (·.outline) =
        keptOutlines .ofNone (tree.flatten flattening).placed := by simp [keptOutlines]
    _ = (tree.label, none) :: keptBelow flattening tree := by
        rw [keptOutlines_placed, label_flatten, keptBelow_flatten]
    _ = (tree.keptNodes flattening).map (·.outline) := (keptOutlines_placed flattening tree).symm

theorem length_placed (tree : Node) : tree.placed.length = tree.size := by
  rw [← length_tags, tags, ← map_node_placed, List.length_map, List.length_map]

/-- Flattening removes one node for each redundant group. -/
theorem size_flatten_add_redundantGroups
    (flattening : Flattening)
    (tree : Node) :
    (tree.flatten flattening).size + (tree.redundantGroups flattening).length = tree.size := by
  have left : (tree.flatten flattening).size = (tree.keptNodes flattening).length := by
    have outlines := congrArg List.length (map_outline_placed_flatten flattening tree)
    rwa [List.length_map, List.length_map, length_placed] at outlines
  rw [left, ← length_placed tree, redundantGroups, keptNodes, Nat.add_comm]
  exact (List.length_eq_length_filter_add (Placement.isRedundant flattening)).symm

/-- Nothing is redundant in a flattened tree: flattening it once more removes no
node. -/
theorem redundantGroups_flatten
    (flattening : Flattening)
    (tree : Node) :
    (tree.flatten flattening).redundantGroups flattening = [] := by
  have again := size_flatten_add_redundantGroups flattening (tree.flatten flattening)
  rw [flatten_flatten_self] at again
  apply List.length_eq_zero_iff.mp
  omega

/-- A tree becomes another one that lacks its redundant groups and differs in nothing
else. -/
structure LosesRedundantGroups (flattening : Flattening) (before after : Node) : Prop where
  /-- The nodes that are left are those that were no redundant groups, in their
  former order. -/
  labels : after.preorder.map label = (before.keptNodes flattening).map (·.node.label)
  /-- They stand in folded places as before; in other places they are the same with
  all that stands below them. -/
  outlines : after.placed.map (·.outline) = (before.keptNodes flattening).map (·.outline)
  /-- No redundant group is left. -/
  normal : after.redundantGroups flattening = []
  /-- Nothing is changed in places that are not folded. -/
  untouched : after.placed.filterMap (·.untouched?) = before.placed.filterMap (·.untouched?)
  /-- Each redundant group counts one node. -/
  size : after.size + (before.redundantGroups flattening).length = before.size

/-- Flattening removes exactly the redundant groups.  It never adds a node, so the
number of nodes that it removes is the number of the redundant groups. -/
theorem flatten_removes_exactly_redundant_groups
    (flattening : Flattening)
    (tree : Node) :
    LosesRedundantGroups flattening tree (tree.flatten flattening) ∧
      (tree.flatten flattening).size ≤ tree.size ∧
      tree.removedBy flattening = (tree.redundantGroups flattening).length := by
  have outlines := map_outline_placed_flatten flattening tree
  have size := size_flatten_add_redundantGroups flattening tree
  refine ⟨⟨?_, outlines, redundantGroups_flatten flattening tree, ?_, size⟩, by omega, ?_⟩
  · have labels := congrArg (List.map Prod.fst) outlines
    simpa [List.map_map, Function.comp_def, Placement.outline, ← map_node_placed] using labels
  · have untouched := congrArg (List.filterMap Prod.snd) outlines
    rw [List.filterMap_map, List.filterMap_map, keptNodes, List.filterMap_filter] at untouched
    refine untouched.trans (List.filterMap_congr fun placement _ => ?_)
    cases redundant : placement.isRedundant flattening with
    | false => simp [Placement.outline]
    | true => simp [Placement.untouched?_of_isRedundant redundant]
  · rw [removedBy]
    omega

end Node
end GrammarCompiler
