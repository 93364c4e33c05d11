import GrammarCompiler.Proofs.Flattening

/-!
# What grammar trees match

A tree gets its meaning from the meanings of its parts.  Sequences compose their
items and choices try their alternatives in order; every other node is given a
meaning by an arbitrary interpretation, which sees the node itself, the children
that flattening never reaches as they are, and the other children by their
meanings.

There are two such denotations.  One yields all results in order, the other at
most one, where the first success wins.  Flattening changes neither of them.
-/

namespace GrammarCompiler

/-- A node that is no group, as an interpretation sees it.  The children that
flattening reaches stand there by their meanings, the others as they are. -/
inductive Construct (Meaning : Type u) where
  | file (tag : Tag) (preamble : List Node) (grammars : List Meaning)
  | usingDirective (tag : Tag) (target : Node)
  | comment (tag : Tag)
  | grammar (tag : Tag) (header : Node) (body : List Meaning)
  | declaration (tag : Tag) (name : Node) (base? : Option Node)
  | genericName (tag : Tag) (name : Node) (parameters : List Node)
  | code (tag : Tag)
  | rule (tag : Tag) (isOverride : Bool) (name : Node) (params? : Option Meaning)
      (body : Meaning)
  | literal (tag : Tag)
  | identifier (tag : Tag)
  | call (tag : Tag) (name : Node) (arguments : List Meaning)
  | any (tag : Tag)
  | unary (tag : Tag) (operator : UnaryOperator) (operand : Meaning)
  | binding (tag : Tag) (operand : Meaning) (captured : Node)
  | condition (tag : Tag) (operand : Meaning) (test : Node)
  | action (tag : Tag) (operand : Meaning) (block : Node)
  | fail (tag : Tag) (message : Node)

/-- How the meaning of a node comes from the meanings of its parts. -/
structure Semantics (Meaning : Type u) where
  /-- The meaning of a sequence, given those of its items. -/
  sequence : List Meaning → Meaning
  /-- The meaning of a choice, given those of its alternatives. -/
  choice : List Meaning → Meaning
  /-- The meaning of any other node. -/
  construct : Construct Meaning → Meaning

namespace Node

mutual

/-- The meaning of a tree. -/
def denote (semantics : Semantics Meaning) : Node → Meaning
  | sequence _ items => semantics.sequence (denoteAll semantics items)
  | choice _ alternatives => semantics.choice (denoteAll semantics alternatives)
  | file tag preamble grammars =>
      semantics.construct (.file tag preamble (denoteAll semantics grammars))
  | usingDirective tag target => semantics.construct (.usingDirective tag target)
  | comment tag => semantics.construct (.comment tag)
  | grammar tag header body =>
      semantics.construct (.grammar tag header (denoteAll semantics body))
  | declaration tag name base? => semantics.construct (.declaration tag name base?)
  | genericName tag name parameters => semantics.construct (.genericName tag name parameters)
  | code tag => semantics.construct (.code tag)
  | rule tag isOverride name none body =>
      semantics.construct (.rule tag isOverride name none (body.denote semantics))
  | rule tag isOverride name (some params) body =>
      semantics.construct
        (.rule tag isOverride name (some (params.denote semantics)) (body.denote semantics))
  | literal tag => semantics.construct (.literal tag)
  | identifier tag => semantics.construct (.identifier tag)
  | call tag name arguments =>
      semantics.construct (.call tag name (denoteAll semantics arguments))
  | any tag => semantics.construct (.any tag)
  | unary tag operator operand =>
      semantics.construct (.unary tag operator (operand.denote semantics))
  | binding tag operand captured =>
      semantics.construct (.binding tag (operand.denote semantics) captured)
  | condition tag operand test =>
      semantics.construct (.condition tag (operand.denote semantics) test)
  | action tag operand block =>
      semantics.construct (.action tag (operand.denote semantics) block)
  | fail tag message => semantics.construct (.fail tag message)

/-- The meanings of some trees. -/
def denoteAll (semantics : Semantics Meaning) : List Node → List Meaning
  | [] => []
  | node :: nodes => node.denote semantics :: denoteAll semantics nodes

end

@[simp] theorem denoteAll_eq_map
    (semantics : Semantics Meaning)
    (nodes : List Node) :
    denoteAll semantics nodes = nodes.map (denote semantics) := by
  induction nodes with
  | nil => rfl
  | cons node nodes inductionHypothesis => simp [denoteAll, inductionHypothesis]

end Node

/-! ## Combinations for which nesting does not matter -/

/-- A combination that stands among the parts of another one may be replaced by
its own parts. -/
def IgnoresNesting (combine : List Meaning → Meaning) : Prop :=
  ∀ before inner after,
    combine (before ++ combine inner :: after) = combine (before ++ (inner ++ after))

namespace IgnoresNesting

/-- Replacing every group by its members does not change a combination. -/
theorem combine_flatMap
    {combine : List Meaning → Meaning}
    (ignoresNesting : IgnoresNesting combine)
    {members : Node → List Node}
    {meaning : Node → Meaning}
    (ofMembers : ∀ node,
      members node = [node] ∨ meaning node = combine ((members node).map meaning))
    (before : List Meaning)
    (nodes : List Node) :
    combine (before ++ (nodes.flatMap members).map meaning) =
      combine (before ++ nodes.map meaning) := by
  induction nodes generalizing before with
  | nil => rfl
  | cons node nodes inductionHypothesis =>
      have ofRest := inductionHypothesis (before ++ [meaning node])
      simp only [List.append_assoc, List.singleton_append] at ofRest
      rw [List.flatMap_cons, List.map_append, List.map_cons]
      rcases ofMembers node with alone | combined
      · rw [alone, List.map_singleton, List.singleton_append]
        exact ofRest
      · rw [← ignoresNesting, ← combined]
        exact ofRest

/-- Splicing groups does not change a combination. -/
theorem combine_splice
    {combine : List Meaning → Meaning}
    (ignoresNesting : IgnoresNesting combine)
    {members : Node → List Node}
    {meaning : Node → Meaning}
    (ofMembers : ∀ node,
      members node = [node] ∨ meaning node = combine ((members node).map meaning))
    (active : Bool)
    (nodes : List Node) :
    combine ((Node.splice active members nodes).map meaning) =
      combine (nodes.map meaning) := by
  cases active with
  | false => rfl
  | true => exact ignoresNesting.combine_flatMap ofMembers [] nodes

end IgnoresNesting

namespace Semantics

/-- A semantics for which neither nested sequences nor nested choices matter. -/
structure IgnoresGrouping (semantics : Semantics Meaning) : Prop where
  sequence : IgnoresNesting semantics.sequence
  choice : IgnoresNesting semantics.choice

end Semantics

namespace Node

theorem denote_sequenceItems
    (semantics : Semantics Meaning)
    (node : Node) :
    node.sequenceItems = [node] ∨
      node.denote semantics =
        semantics.sequence (node.sequenceItems.map (denote semantics)) := by
  cases node with
  | sequence tag items => exact .inr (by simp [denote, sequenceItems])
  | _ => exact .inl rfl

theorem denote_choiceAlternatives
    (semantics : Semantics Meaning)
    (node : Node) :
    node.choiceAlternatives = [node] ∨
      node.denote semantics =
        semantics.choice (node.choiceAlternatives.map (denote semantics)) := by
  cases node with
  | choice tag alternatives => exact .inr (by simp [denote, choiceAlternatives])
  | _ => exact .inl rfl

/-- Flattening changes no meaning under a semantics that ignores grouping. -/
theorem denote_flatten
    {semantics : Semantics Meaning}
    (ignoresGrouping : semantics.IgnoresGrouping)
    (flattening : Flattening)
    (node : Node) :
    (node.flatten flattening).denote semantics = node.denote semantics := by
  have ofMembers
      {nodes : List Node}
      (each : ∀ node ∈ nodes,
        (node.flatten flattening).denote semantics = node.denote semantics) :
      (nodes.map (flatten flattening)).map (denote semantics) =
        nodes.map (denote semantics) := by
    rw [List.map_map]
    exact List.map_congr_left each
  induction node with
  | sequence tag items ofItems =>
      simp only [flatten, denote, flattenAll_eq_map, denoteAll_eq_map,
        spliceSequences_eq_splice]
      rw [ignoresGrouping.sequence.combine_splice (denote_sequenceItems semantics),
        ofMembers ofItems]
  | choice tag alternatives ofAlternatives =>
      simp only [flatten, denote, flattenAll_eq_map, denoteAll_eq_map,
        spliceChoices_eq_splice]
      rw [ignoresGrouping.choice.combine_splice (denote_choiceAlternatives semantics),
        ofMembers ofAlternatives]
  | file tag other members _ ofRest
  | grammar tag other members _ ofRest
  | call tag other members _ ofRest =>
      simp only [flatten, denote, flattenAll_eq_map, denoteAll_eq_map]
      rw [ofMembers ofRest]
  | rule tag isOverride name params? body _ ofParams ofBody =>
      cases params? with
      | none => simp only [flatten, denote, ofBody]
      | some params => simp only [flatten, denote, ofBody, ofParams params rfl]
  | unary tag operator operand ofOperand => simp only [flatten, denote, ofOperand]
  | binding tag operand other ofOperand
  | condition tag operand other ofOperand
  | action tag operand other ofOperand => simp only [flatten, denote, ofOperand]
  | _ => simp only [flatten]

end Node

/-! ## All parses, and the first one -/

namespace Semantics

/-- Yield all results in order.  A sequence goes on from every result of the
items before, beginning with the current position alone; a choice yields the
results of one alternative after the other. -/
def allParses
    (interpret : Construct (Position → List Position) → Position → List Position) :
    Semantics (Position → List Position) where
  sequence items position := items.foldl (fun reached item => reached.flatMap item) [position]
  choice alternatives position := alternatives.flatMap fun alternative => alternative position
  construct := interpret

/-- Yield at most one result.  A sequence fails with its first item that fails;
a choice takes the first alternative that succeeds. -/
def firstParse
    (interpret : Construct (Position → Option Position) → Position → Option Position) :
    Semantics (Position → Option Position) where
  sequence items position := items.foldl (fun reached item => reached.bind item) (some position)
  choice alternatives position :=
    alternatives.findSome? fun alternative => alternative position
  construct := interpret

/-- A sequence that goes on from several positions goes on from each of them. -/
theorem foldl_flatMap_eq
    (items : List (Position → List Position))
    (reached : List Position) :
    items.foldl (fun reached item => reached.flatMap item) reached =
      reached.flatMap fun position =>
        items.foldl (fun reached item => reached.flatMap item) [position] := by
  induction items generalizing reached with
  | nil => simp
  | cons item items inductionHypothesis =>
      simp only [List.foldl_cons, List.flatMap_singleton]
      rw [inductionHypothesis, List.flatMap_assoc]
      congr 1
      funext position
      exact (inductionHypothesis (item position)).symm

/-- A sequence that goes on from a position that may be missing fails if it
is. -/
theorem foldl_bind_eq
    (items : List (Position → Option Position))
    (reached : Option Position) :
    items.foldl (fun reached item => reached.bind item) reached =
      reached.bind fun position =>
        items.foldl (fun reached item => reached.bind item) (some position) := by
  cases reached with
  | some position => rfl
  | none =>
      induction items with
      | nil => rfl
      | cons item items inductionHypothesis => exact inductionHypothesis

theorem allParses_ignoresGrouping
    (interpret : Construct (Position → List Position) → Position → List Position) :
    (allParses interpret).IgnoresGrouping where
  sequence before inner after := by
    funext position
    simp only [allParses, List.foldl_append, List.foldl_cons]
    rw [← foldl_flatMap_eq]
  choice before inner after := by
    funext position
    simp only [allParses, List.flatMap_append, List.flatMap_cons]

theorem firstParse_ignoresGrouping
    (interpret : Construct (Position → Option Position) → Position → Option Position) :
    (firstParse interpret).IgnoresGrouping where
  sequence before inner after := by
    funext position
    simp only [firstParse, List.foldl_append, List.foldl_cons]
    rw [← foldl_bind_eq]
  choice before inner after := by
    funext position
    simp only [firstParse, List.findSome?_append, List.findSome?_cons]
    cases inner.findSome? fun alternative => alternative position <;> rfl

end Semantics

namespace Node

/-- Flattening preserves matching: whatever the nodes other than groups mean,
every tree yields the same results in the same order from every position, and
the same first result, after any flattening.  The flattenings of choices, of
sequences and of both are the three that are in use. -/
theorem flatten_preserves_parses
    {Position : Type u}
    (interpretAll : Construct (Position → List Position) → Position → List Position)
    (interpretFirst : Construct (Position → Option Position) → Position → Option Position)
    (flattening : Flattening)
    (tree : Node)
    (position : Position) :
    (tree.flatten flattening).denote (.allParses interpretAll) position =
        tree.denote (.allParses interpretAll) position ∧
      (tree.flatten flattening).denote (.firstParse interpretFirst) position =
        tree.denote (.firstParse interpretFirst) position := by
  constructor
  · rw [denote_flatten (Semantics.allParses_ignoresGrouping interpretAll)]
  · rw [denote_flatten (Semantics.firstParse_ignoresGrouping interpretFirst)]

end Node
end GrammarCompiler
