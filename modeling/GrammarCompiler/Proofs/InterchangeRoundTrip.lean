import GrammarCompiler.Bundle
import GrammarCompiler.Proofs.TreeInduction
import GrammarCompiler.Proofs.WrittenJson
import Mathlib.Data.List.Basic

/-!
# The interchange format keeps trees and bundles

A tree is read back from its interchange text up to numbers and memos, which
are not written.  The offsets of a tree are natural numbers of 64 bits, and the
text must not nest deeper than the reader goes.  Every tree that was read meets
both conditions: its offsets were read as such numbers, and what is written for
a tree nests at most as deep as what it was read from.
-/

namespace GrammarCompiler

/-- The tag without its number and its memo. -/
def Tag.bare (tag : Tag) : Tag :=
  { span := tag.span }

/-- The ends of a span are natural numbers of 64 bits. -/
def Span.IsWord (span : Span) : Prop :=
  span.start < Json.Number.naturalBound ∧ span.next < Json.Number.naturalBound

namespace Node

/-- The offsets of all nodes are natural numbers of 64 bits. -/
def HasWordSpans (tree : Node) : Prop :=
  ∀ tag ∈ tree.tags, tag.span.IsWord

instance (span : Span) : Decidable span.IsWord :=
  inferInstanceAs (Decidable (_ ∧ _))

instance (tree : Node) : Decidable tree.HasWordSpans :=
  inferInstanceAs (Decidable (∀ tag ∈ tree.tags, tag.span.IsWord))

theorem hasWordSpans_iff
    (node : Node) :
    node.HasWordSpans ↔
      node.tag.span.IsWord ∧ ∀ child ∈ node.children, child.HasWordSpans := by
  unfold HasWordSpans
  rw [tags_eq_cons, List.forall_mem_cons, List.forall_mem_flatMap]

/-- The tree without numbers and memos. -/
def bare (tree : Node) : Node :=
  tree.mapTags Tag.bare

/-! ## Trees under other tags -/

theorem alikeAll_map
    {change : Node → Node}
    {nodes : List Node}
    (each : ∀ node ∈ nodes, node.alike (change node) = true) :
    alikeAll nodes (nodes.map change) = true := by
  induction nodes with
  | nil => rfl
  | cons first others inductionHypothesis =>
      obtain ⟨ofFirst, ofOthers⟩ := List.forall_mem_cons.mp each
      rw [List.map_cons, alikeAll, ofFirst, inductionHypothesis ofOthers, Bool.and_self]

/-- A tree is like itself without numbers and memos. -/
theorem alike_bare
    (tree : Node) :
    tree.alike tree.bare = true := by
  unfold bare
  induction tree with
  | declaration tag name base? ofName ofBase =>
      cases base? <;> simp_all [mapTags, alike, Tag.bare]
  | rule tag isOverride name params? body ofName ofParams ofBody =>
      cases params? <;> simp_all [mapTags, alike, Tag.bare]
  | _ => simp_all [mapTags, alike, alikeAll_map, Tag.bare]

/-- Like trees are the same without numbers and memos. -/
theorem bare_eq_of_alike
    {left right : Node}
    (same : left.alike right = true) :
    left.bare = right.bare := by
  unfold bare
  revert same
  -- Both trees are walked at once, as `alike` does; the last case of each walk
  -- is that of two trees of different kinds.
  apply alike.induct
    (fun left right => left.alike right = true → left.mapTags Tag.bare = right.mapTags Tag.bare)
    (fun left right => alikeAll left right = true →
      left.map (mapTags Tag.bare) = right.map (mapTags Tag.bare))
  case case22 =>
    intros
    simp_all [alike]
  case case25 =>
    intros
    simp_all [alikeAll]
  all_goals
    intros
    simp_all [alike, alikeAll, mapTags, Tag.bare]

theorem alikeAll_of_map_bare_eq
    {lefts rights : List Node}
    (each : ∀ left ∈ lefts, ∀ right : Node,
      left.mapTags Tag.bare = right.mapTags Tag.bare → left.alike right = true)
    (sameShapes : lefts.map (mapTags Tag.bare) = rights.map (mapTags Tag.bare)) :
    alikeAll lefts rights = true := by
  induction lefts generalizing rights with
  | nil =>
      rw [List.map_eq_nil_iff.mp sameShapes.symm]
      rfl
  | cons left lefts inductionHypothesis =>
      obtain ⟨right, rights, rfl, ofFirst, ofOthers⟩ := List.map_eq_cons_iff.mp sameShapes.symm
      obtain ⟨first, others⟩ := List.forall_mem_cons.mp each
      rw [alikeAll, first right ofFirst.symm, inductionHypothesis others ofOthers.symm]
      rfl

/-- Trees that are the same without numbers and memos are alike. -/
theorem alike_of_bare_eq
    {left right : Node}
    (sameShape : left.bare = right.bare) :
    left.alike right = true := by
  unfold bare at sameShape
  induction left generalizing right
  -- Trees of one shape have one kind, so only the equal kinds remain.
  all_goals
    have sameKind := congrArg kind sameShape
    rw [kind_mapTags, kind_mapTags] at sameKind
    cases right <;> cases sameKind
  case declaration.declaration tag name base? ofName ofBase tag' name' base?' =>
    cases base? <;> cases base?' <;> simp_all [mapTags, alike, Tag.bare]
  case rule.rule tag isOverride name params? body ofName ofParams ofBody tag' isOverride' name'
      params?' body' =>
    cases params? <;> cases params?' <;> simp_all [mapTags, alike, Tag.bare]
  all_goals simp_all [mapTags, alike, Tag.bare, alikeAll_of_map_bare_eq]

theorem alike_iff_bare_eq
    {left right : Node} :
    left.alike right = true ↔ left.bare = right.bare :=
  ⟨bare_eq_of_alike, alike_of_bare_eq⟩

/-- The spans of a tree fit a source if they do so without numbers and memos. -/
theorem fitsSource_bare_iff
    {source : String}
    {tree : Node} :
    tree.bare.FitsSource source ↔ tree.FitsSource source := by
  rw [FitsSource, FitsSource, bare, tags_mapTags, List.forall_mem_map]
  rfl

/-! ## What is written -/

theorem isPlain_nodeJson
    (kind : Kind)
    {fields : List (String × Json)}
    {tag : Tag}
    (word : tag.span.IsWord)
    (each : ∀ field ∈ fields, field.2.IsPlain) :
    (nodeJson kind fields tag).IsPlain := by
  apply Json.IsPlain.object
  simp only [List.forall_mem_cons, List.forall_mem_append]
  exact ⟨.text kind.name, each, .natural word.1, .natural word.2, nofun⟩

theorem isPlain_toJsons
    {nodes : List Node}
    (each : ∀ node ∈ nodes, node.toJson.IsPlain) :
    (Json.array (toJsons nodes)).IsPlain := by
  rw [toJsons_eq_map]
  exact .array (List.forall_mem_map.mpr each)

/-- What is written for a tree is made of texts and natural numbers. -/
theorem isPlain_toJson
    {tree : Node}
    (words : tree.HasWordSpans) :
    tree.toJson.IsPlain := by
  induction tree using childInduction with
  | step node ofChildren =>
      obtain ⟨word, childWords⟩ := (hasWordSpans_iff node).mp words
      have each : ∀ child ∈ node.children, child.toJson.IsPlain :=
        fun child isChild => ofChildren child isChild (childWords child isChild)
      clear words ofChildren childWords
      cases node with
      | declaration tag name base? =>
          cases base? <;> rw [toJson] <;> apply isPlain_nodeJson _ word <;>
            simp_all [children, Json.IsPlain.null]
      | rule tag isOverride name params? body =>
          cases params? <;> rw [toJson] <;> apply isPlain_nodeJson _ word <;>
            simp_all [children, Json.IsPlain.null, Json.IsPlain.bool]
      | _ =>
          rw [toJson]
          apply isPlain_nodeJson _ word
          simp_all [children, isPlain_toJsons, Json.IsPlain.text, -toJsons_eq_map]

end Node

/-! ## What is read -/

theorem Kind.ofName?_name (kind : Kind) : Kind.ofName? kind.name = some kind := by
  cases kind <;> decide

theorem UnaryOperator.ofName?_name (operator : UnaryOperator) :
    UnaryOperator.ofName? operator.name = some operator := by
  cases operator <;> decide

namespace Interchange

/-- The meanings of written members. -/
def fieldsOfMembers (members : List (String × Json)) : Fields :=
  members.map fun member => (member.1, meaning member.2)

theorem named_fieldsOfMembers
    (members : List (String × Json))
    (name : String) :
    (fieldsOfMembers members).named name =
      (members.filter (·.1 == name)).map fun member => meaning member.2 := by
  rw [Fields.named, fieldsOfMembers, List.filter_map, List.map_map]
  rfl

theorem fieldsOf_map_memberOf
    (members : List (String × Json)) :
    fieldsOf (members.map Json.memberOf) = fieldsOfMembers members := by
  unfold fieldsOfMembers
  induction members with
  | nil => rw [List.map_nil, List.map_nil, fieldsOf]
  | cons first others inductionHypothesis =>
      have key : keyText (Json.Quoted.escape first.1.toList) = first.1 := by
        rw [keyText, Json.decode?_escape, Option.getD_some]
      rw [List.map_cons, List.map_cons, Json.memberOf, fieldsOf, inductionHypothesis, key]

/-- The meaning of an object with the given keys is that of its fields. -/
theorem meaning_ofMembers
    (members : List (String × Json)) :
    (meaning (.ofMembers members)).node? = (fieldsOfMembers members).toNode? := by
  rw [Json.ofMembers_eq, meaning, fieldsOf_map_memberOf]

@[simp] theorem kind?_meaning_name (kind : Kind) :
    (meaning (.ofString kind.name)).kind? = some kind := by
  simp [Json.ofString, meaning, Kind.ofName?_name]

@[simp] theorem operator?_meaning_name (operator : UnaryOperator) :
    (meaning (.ofString operator.name)).operator? = some operator := by
  simp [Json.ofString, meaning, UnaryOperator.ofName?_name]

theorem natural?_meaning_ofNat
    {value : Nat}
    (small : value < Json.Number.naturalBound) :
    (meaning (.ofNat value)).natural? = some value := by
  rw [Json.ofNat, meaning, Json.Number.natural?_ofNat small]

theorem elementNodes?_map
    {write : Node → Json}
    {read : Node → Node}
    {nodes : List Node}
    (each : ∀ node ∈ nodes, (meaning (write node)).node? = some (read node)) :
    elementNodes? (nodes.map write) = some (nodes.map read) := by
  induction nodes with
  | nil => rw [List.map_nil, List.map_nil, elementNodes?]
  | cons first others inductionHypothesis =>
      obtain ⟨ofFirst, ofOthers⟩ := List.forall_mem_cons.mp each
      rw [List.map_cons, elementNodes?, ofFirst, inductionHypothesis ofOthers, List.map_cons]

theorem isNull_meaning_toJson (node : Node) : (meaning node.toJson).isNull = false := by
  cases node with
  | declaration tag name base? => cases base? <;> rfl
  | rule tag isOverride name params? body => cases params? <;> rfl
  | _ => rfl

/-- The fields that every node has. -/
def commonFields : List String :=
  ["type", "start", "next"]

/-- The parts of a node are read from the fields of its kind only. -/
theorem nodeOf?_congr
    {fields fields' : Fields}
    (same : ∀ name ∉ commonFields, fields.named name = fields'.named name)
    (kind : Kind)
    (tag : Tag) :
    fields.nodeOf? kind tag = fields'.nodeOf? kind tag := by
  have required (name : String) (proper : name ∉ commonFields) :
      fields.required? name = fields'.required? name := by
    rw [Fields.required?, Fields.required?, same name proper]
  have node (name : String) (proper : name ∉ commonFields) :
      fields.node? name = fields'.node? name := by
    rw [Fields.node?, Fields.node?, required name proper]
  have nodes (name : String) (proper : name ∉ commonFields) :
      fields.nodes? name = fields'.nodes? name := by
    rw [Fields.nodes?, Fields.nodes?, required name proper]
  have optional (name : String) (proper : name ∉ commonFields) :
      fields.optionalNode? name = fields'.optionalNode? name := by
    rw [Fields.optionalNode?, Fields.optionalNode?, same name proper]
  cases kind <;>
    simp [Fields.nodeOf?, required, node, nodes, optional, commonFields]

/-- What an object means that was written with the fields of its kind. -/
theorem node?_meaning_nodeJson
    (kind : Kind)
    {fields : List (String × Json)}
    {tag : Tag}
    (word : tag.span.IsWord)
    (proper : ∀ field ∈ fields, field.1 ∉ commonFields) :
    (meaning (Node.nodeJson kind fields tag)).node? =
      (fieldsOfMembers fields).nodeOf? kind { span := tag.span } := by
  have absent (name : String) (common : name ∈ commonFields) :
      fields.filter (·.1 == name) = [] := by
    rw [List.filter_eq_nil_iff]
    intro field member same
    exact proper field member (beq_iff_eq.mp same ▸ common)
  rw [Node.nodeJson, meaning_ofMembers]
  generalize written : fieldsOfMembers _ = all
  have named (name : String) := written ▸ named_fieldsOfMembers _ name
  simp only [List.filter_cons, List.filter_append, List.filter_nil] at named
  have isKind : all.required? "type" = some (meaning (.ofString kind.name)) := by
    simp [Fields.required?, named, absent "type" (by decide)]
  have isStart : all.required? "start" = some (meaning (.ofNat tag.span.start)) := by
    simp [Fields.required?, named, absent "start" (by decide)]
  have isNext : all.required? "next" = some (meaning (.ofNat tag.span.next)) := by
    simp [Fields.required?, named, absent "next" (by decide)]
  have isSpan : all.span? = some tag.span := by
    simp [Fields.span?, isStart, isNext, natural?_meaning_ofNat word.1,
      natural?_meaning_ofNat word.2]
  have same (name : String) (proper : name ∉ commonFields) :
      all.named name = (fieldsOfMembers fields).named name := by
    simp only [commonFields, List.mem_cons, not_or] at proper
    simp [named, named_fieldsOfMembers, Ne.symm proper.1, Ne.symm proper.2.1,
      Ne.symm proper.2.2.1]
  simp [Fields.toNode?, isKind, isSpan, nodeOf?_congr same]

/-- What is written for a tree means the tree without numbers and memos. -/
theorem node?_meaning_toJson
    {tree : Node}
    (words : tree.HasWordSpans) :
    (meaning tree.toJson).node? = some tree.bare := by
  induction tree using Node.childInduction with
  | step node ofChildren =>
      obtain ⟨word, childWords⟩ := (Node.hasWordSpans_iff node).mp words
      have each : ∀ child ∈ node.children, (meaning child.toJson).node? = some child.bare :=
        fun child isChild => ofChildren child isChild (childWords child isChild)
      clear words ofChildren childWords
      cases node with
      | declaration tag name base? =>
          cases base? <;> rw [Node.toJson] <;>
            refine (node?_meaning_nodeJson _ word (by simp [commonFields])).trans ?_ <;>
            simp_all [Fields.nodeOf?, Fields.node?, Fields.optionalNode?, Fields.required?,
              named_fieldsOfMembers, Node.children, Node.tag, Node.bare, Node.mapTags, Tag.bare,
              meaning, isNull_meaning_toJson]
      | rule tag isOverride name params? body =>
          cases params? <;> rw [Node.toJson] <;>
            refine (node?_meaning_nodeJson _ word (by simp [commonFields])).trans ?_ <;>
            simp_all [Fields.nodeOf?, Fields.node?, Fields.optionalNode?, Fields.required?,
              named_fieldsOfMembers, Node.children, Node.tag, Node.bare, Node.mapTags, Tag.bare,
              meaning, isNull_meaning_toJson]
      | _ =>
          rw [Node.toJson]
          refine (node?_meaning_nodeJson _ word (by simp [commonFields])).trans ?_
          simp_all [Fields.nodeOf?, Fields.node?, Fields.nodes?, Fields.required?,
            named_fieldsOfMembers, Node.children, Node.tag, Node.bare, Node.mapTags, Tag.bare,
            meaning, elementNodes?_map]

end Interchange

/-! ## What is read nests no deeper when it is written -/

namespace Json

theorem elementsDepth_le_iff
    {elements : List Json}
    {limit : Nat} :
    elementsDepth elements ≤ limit ↔ ∀ element ∈ elements, element.depth ≤ limit := by
  induction elements with
  | nil => simp [elementsDepth]
  | cons first others inductionHypothesis =>
      rw [elementsDepth, Nat.max_le, inductionHypothesis, List.forall_mem_cons]

theorem membersDepth_le_iff
    {members : List (List Char × Json)}
    {limit : Nat} :
    membersDepth members ≤ limit ↔ ∀ member ∈ members, member.2.depth ≤ limit := by
  induction members with
  | nil => simp [membersDepth]
  | cons first others inductionHypothesis =>
      rw [membersDepth, Nat.max_le, inductionHypothesis, List.forall_mem_cons]

theorem depth_ofMembers_le_iff
    {members : List (String × Json)}
    {limit : Nat} :
    (ofMembers members).depth ≤ limit + 1 ↔ ∀ member ∈ members, member.2.depth ≤ limit := by
  rw [ofMembers_eq, depth, Nat.add_le_add_iff_right, membersDepth_le_iff, List.forall_mem_map]
  rfl

end Json

namespace Node

/-- The nesting of a node is that of its fields. -/
theorem depth_nodeJson_le_iff
    {kind : Kind}
    {fields : List (String × Json)}
    {tag : Tag}
    {limit : Nat} :
    (nodeJson kind fields tag).depth ≤ limit + 1 ↔ ∀ field ∈ fields, field.2.depth ≤ limit := by
  rw [nodeJson, Json.depth_ofMembers_le_iff]
  simp only [List.forall_mem_cons, List.forall_mem_append, Json.ofString, Json.ofNat, Json.depth]
  simp

/-- The tree can be written with natural numbers of 64 bits and nests at most as
deep as given. -/
structure IsWritable (limit : Nat) (tree : Node) : Prop where
  words : tree.HasWordSpans
  shallow : tree.toJson.depth ≤ limit

theorem IsWritable.mono
    {limit limit' : Nat}
    {tree : Node}
    (writable : tree.IsWritable limit)
    (below : limit ≤ limit') :
    tree.IsWritable limit' :=
  ⟨writable.words, writable.shallow.trans below⟩

/-- A node can be written if its fields can, one level deeper. -/
theorem IsWritable.of_fields
    {node : Node}
    {kind : Kind}
    {fields : List (String × Json)}
    {limit : Nat}
    (written : node.toJson = nodeJson kind fields node.tag)
    (word : node.tag.span.IsWord)
    (childWords : ∀ child ∈ node.children, child.HasWordSpans)
    (shallow : ∀ field ∈ fields, field.2.depth ≤ limit) :
    node.IsWritable (limit + 1) where
  words := (hasWordSpans_iff node).mpr ⟨word, childWords⟩
  shallow := by
    rw [written]
    exact depth_nodeJson_le_iff.mpr shallow

end Node

namespace Interchange

/-- The trees that a value may stand for can be written and nest no deeper than
the given limit. -/
structure Meaning.IsBounded (limit : Nat) (meaning : Meaning) : Prop where
  natural : ∀ value ∈ meaning.natural?, value < Json.Number.naturalBound
  node : ∀ tree ∈ meaning.node?, tree.IsWritable limit
  nodes : ∀ trees ∈ meaning.nodes?,
    (∀ tree ∈ trees, tree.HasWordSpans) ∧ (Json.array (trees.map Node.toJson)).depth ≤ limit

namespace Fields

variable {fields : Fields} {limit : Nat}

theorem mem_of_mem_named
    {name : String}
    {meaning : Meaning}
    (found : meaning ∈ fields.named name) :
    (name, meaning) ∈ fields := by
  obtain ⟨field, member, rfl⟩ := List.mem_map.mp found
  obtain ⟨inFields, same⟩ := List.mem_filter.mp member
  rwa [← beq_iff_eq.mp same]

theorem mem_of_required?
    {name : String}
    {meaning : Meaning}
    (found : fields.required? name = some meaning) :
    (name, meaning) ∈ fields := by
  apply mem_of_mem_named
  unfold required? at found
  split at found
  · next only named =>
      rw [named, Option.some.inj found]
      exact List.mem_singleton_self _
  · exact absurd found nofun

theorem isWord_of_span?
    {span : Span}
    (bounded : ∀ field ∈ fields, field.2.IsBounded limit)
    (read : fields.span? = some span) :
    span.IsWord := by
  simp only [span?, Option.bind_eq_bind, Option.bind_eq_some_iff, Option.pure_def,
    Option.some.injEq] at read
  obtain ⟨first, isFirst, start, isStart, second, isSecond, next, isNext, rfl⟩ := read
  exact ⟨(bounded _ (mem_of_required? isFirst)).natural start isStart,
    (bounded _ (mem_of_required? isSecond)).natural next isNext⟩

theorem isWritable_of_node?
    {name : String}
    {tree : Node}
    (bounded : ∀ field ∈ fields, field.2.IsBounded limit)
    (read : fields.node? name = some tree) :
    tree.IsWritable limit := by
  obtain ⟨meaning, found, isTree⟩ := Option.bind_eq_some_iff.mp read
  exact (bounded _ (mem_of_required? found)).node tree isTree

theorem isWritable_of_optionalNode?
    {name : String}
    {tree? : Option Node}
    (bounded : ∀ field ∈ fields, field.2.IsBounded limit)
    (read : fields.optionalNode? name = some tree?)
    (tree : Node)
    (present : tree ∈ tree?) :
    tree.IsWritable limit := by
  obtain rfl := present
  unfold optionalNode? at read
  split at read
  · exact absurd read nofun
  · next meaning named =>
      have inFields := mem_of_mem_named (named ▸ List.mem_singleton_self meaning)
      split at read
      · exact absurd read nofun
      · obtain ⟨_, isTree, ⟨⟩⟩ := Option.map_eq_some_iff.mp read
        exact (bounded _ inFields).node tree isTree
  · exact absurd read nofun

theorem areWritable_of_nodes?
    {name : String}
    {trees : List Node}
    (bounded : ∀ field ∈ fields, field.2.IsBounded limit)
    (read : fields.nodes? name = some trees) :
    (∀ tree ∈ trees, tree.HasWordSpans) ∧ (Json.array (trees.map Node.toJson)).depth ≤ limit := by
  obtain ⟨meaning, found, areTrees⟩ := Option.bind_eq_some_iff.mp read
  exact (bounded _ (mem_of_required? found)).nodes trees areTrees

/-- The node that is made of fields can be written. -/
theorem isWritable_of_nodeOf?
    {kind : Kind}
    {tag : Tag}
    {tree : Node}
    (bounded : ∀ field ∈ fields, field.2.IsBounded limit)
    (word : tag.span.IsWord)
    (read : fields.nodeOf? kind tag = some tree) :
    tree.IsWritable (limit + 1) := by
  have node {name : String} {tree : Node} (found : fields.node? name = some tree) :=
    isWritable_of_node? bounded found
  have optional {name : String} {tree? : Option Node}
      (found : fields.optionalNode? name = some tree?) :=
    isWritable_of_optionalNode? bounded found
  have nodes {name : String} {trees : List Node} (found : fields.nodes? name = some trees) :=
    areWritable_of_nodes? bounded found
  cases kind with simp only [nodeOf?, Option.bind_eq_bind, Option.pure_def,
    Option.bind_eq_some_iff, Option.some.injEq] at read
  | comment | code | literal | identifier | any =>
      subst read
      exact .of_fields rfl word nofun nofun
  | usingDirective | fail =>
      obtain ⟨only, ofOnly, rfl⟩ := read
      refine .of_fields rfl word ?_ ?_
      · simpa [Node.children] using (node ofOnly).words
      · simpa using (node ofOnly).shallow
  | unary =>
      obtain ⟨meaning, _, operator, _, operand, ofOperand, rfl⟩ := read
      refine .of_fields rfl word ?_ ?_
      · simpa [Node.children] using (node ofOperand).words
      · simpa [Json.ofString, Json.depth] using (node ofOperand).shallow
  | sequence | choice =>
      obtain ⟨members, ofMembers, rfl⟩ := read
      refine .of_fields rfl word ?_ ?_
      · simpa [Node.children] using (nodes ofMembers).1
      · simpa using (nodes ofMembers).2
  | binding | condition | action =>
      obtain ⟨first, ofFirst, second, ofSecond, rfl⟩ := read
      refine .of_fields rfl word ?_ ?_
      · simp [Node.children, (node ofFirst).words, (node ofSecond).words]
      · simp [(node ofFirst).shallow, (node ofSecond).shallow]
  | grammar | genericName | call =>
      obtain ⟨first, ofFirst, others, ofOthers, rfl⟩ := read
      refine .of_fields rfl word ?_ ?_
      · simpa [Node.children, (node ofFirst).words] using (nodes ofOthers).1
      · simpa [(node ofFirst).shallow] using (nodes ofOthers).2
  | file =>
      obtain ⟨preamble, ofPreamble, grammars, ofGrammars, rfl⟩ := read
      refine .of_fields rfl word ?_ ?_
      · exact List.forall_mem_append.mpr ⟨(nodes ofPreamble).1, (nodes ofGrammars).1⟩
      · simpa using ⟨(nodes ofPreamble).2, (nodes ofGrammars).2⟩
  | declaration =>
      obtain ⟨name, ofName, base?, ofBase, rfl⟩ := read
      cases base? with
      | none =>
          refine .of_fields rfl word ?_ ?_
          · simp [Node.children, (node ofName).words]
          · simp [(node ofName).shallow, Json.depth]
      | some base =>
          refine .of_fields rfl word ?_ ?_
          · simp [Node.children, (node ofName).words, (optional ofBase base rfl).words]
          · simp [(node ofName).shallow, (optional ofBase base rfl).shallow]
  | rule =>
      obtain ⟨meaning, _, isOverride, _, name, ofName, params?, ofParams, body, ofBody, rfl⟩ := read
      cases params? with
      | none =>
          refine .of_fields rfl word ?_ ?_
          · simp [Node.children, (node ofName).words, (node ofBody).words]
          · simp [(node ofName).shallow, (node ofBody).shallow, Json.depth]
      | some params =>
          refine .of_fields rfl word ?_ ?_
          · simp [Node.children, (node ofName).words, (node ofBody).words,
              (optional ofParams params rfl).words]
          · simp [(node ofName).shallow, (node ofBody).shallow, Json.depth,
              (optional ofParams params rfl).shallow]

end Fields

theorem Meaning.IsBounded.mono
    {limit limit' : Nat}
    {meaning : Meaning}
    (bounded : meaning.IsBounded limit)
    (below : limit ≤ limit') :
    meaning.IsBounded limit' where
  natural := bounded.natural
  node tree isTree := (bounded.node tree isTree).mono below
  nodes trees areTrees :=
    ⟨(bounded.nodes trees areTrees).1, (bounded.nodes trees areTrees).2.trans below⟩

/-- The node that an object stands for can be written. -/
theorem Fields.isWritable_of_toNode?
    {fields : Fields}
    {limit : Nat}
    {tree : Node}
    (bounded : ∀ field ∈ fields, field.2.IsBounded limit)
    (read : fields.toNode? = some tree) :
    tree.IsWritable (limit + 1) := by
  simp only [Fields.toNode?, Option.bind_eq_bind, Option.bind_eq_some_iff] at read
  obtain ⟨_, _, kind, _, span, isSpan, isNode⟩ := read
  exact Fields.isWritable_of_nodeOf? bounded (Fields.isWord_of_span? bounded isSpan) isNode

theorem lt_naturalBound_of_natural?
    {lexeme : List Char}
    {value : Nat}
    (read : Json.Number.natural? lexeme = some value) :
    value < Json.Number.naturalBound := by
  unfold Json.Number.natural? at read
  split at read
  · next isNatural =>
      rw [← Option.some.inj read]
      exact isNatural.2.2
  · exact absurd read nofun

mutual

/-- Every tree that a value stands for can be written and nests no deeper than
the value. -/
theorem isBounded_meaning : ∀ json : Json, (meaning json).IsBounded json.depth
  | .null | .bool _ | .string _ => ⟨nofun, nofun, nofun⟩
  | .number lexeme => ⟨fun value read => lt_naturalBound_of_natural? read, nofun, nofun⟩
  | .array elements => by
      refine ⟨nofun, nofun, fun trees read => ?_⟩
      have each := areWritable_of_elementNodes? elements read
      refine ⟨fun tree member => (each tree member).words, ?_⟩
      rw [Json.depth, Json.depth, Nat.add_le_add_iff_right, Json.elementsDepth_le_iff,
        List.forall_mem_map]
      exact fun tree member => (each tree member).shallow
  | .object members => by
      refine ⟨nofun, fun tree read => ?_, nofun⟩
      rw [Json.depth]
      exact Fields.isWritable_of_toNode? (isBounded_fieldsOf members) read

theorem areWritable_of_elementNodes? : ∀ (elements : List Json) {trees : List Node},
    elementNodes? elements = some trees →
      ∀ tree ∈ trees, tree.IsWritable (Json.elementsDepth elements)
  | [], trees, read => by
      rw [elementNodes?, Option.some.injEq] at read
      subst read
      exact List.forall_mem_nil _
  | element :: elements, trees, read => by
      rw [elementNodes?] at read
      split at read
      · next node nodes ofElement ofElements =>
          rw [← Option.some.inj read, List.forall_mem_cons, Json.elementsDepth]
          refine ⟨?_, fun tree member => ?_⟩
          · exact ((isBounded_meaning element).node node ofElement).mono (Nat.le_max_left _ _)
          · exact (areWritable_of_elementNodes? elements ofElements tree member).mono
              (Nat.le_max_right _ _)
      · exact absurd read nofun

theorem isBounded_fieldsOf : ∀ (members : List (List Char × Json)),
    ∀ field ∈ fieldsOf members, field.2.IsBounded (Json.membersDepth members)
  | [] => by
      rw [fieldsOf]
      exact List.forall_mem_nil _
  | (key, value) :: members => by
      rw [fieldsOf, List.forall_mem_cons, Json.membersDepth]
      refine ⟨(isBounded_meaning value).mono (Nat.le_max_left _ _), fun field member => ?_⟩
      exact (isBounded_fieldsOf members field member).mono (Nat.le_max_right _ _)

end

/-! ## Trees and bundles -/

theorem treeWithin?_toJson
    {limit : Nat}
    {tree : Node}
    (writable : tree.IsWritable limit) :
    treeWithin? limit tree.toJson = some tree.bare := by
  have storable := (Node.isPlain_toJson writable.words).isStorable
  rw [treeWithin?, if_pos ⟨writable.shallow, storable⟩, node?_meaning_toJson writable.words]

end Interchange

namespace Node

/-- A tree is read back from its text, without numbers and memos. -/
theorem ofText?_toText
    {tree : Node}
    (writable : tree.IsWritable Interchange.depthLimit) :
    ofText? tree.toText = some tree.bare := by
  rw [ofText?, toText, (isPlain_toJson writable.words).parse?_text, Option.bind_some, ofJson?,
    Interchange.treeWithin?_toJson writable]

/-- A tree that was read from a text can be written again. -/
theorem isWritable_of_ofText?
    {text : String}
    {tree : Node}
    (read : ofText? text = some tree) :
    tree.IsWritable Interchange.depthLimit := by
  obtain ⟨json, -, isTree⟩ := Option.bind_eq_some_iff.mp read
  unfold ofJson? Interchange.treeWithin? at isTree
  split at isTree
  · next within =>
      exact ((Interchange.isBounded_meaning json).node tree isTree).mono within.1
  · exact absurd isTree nofun

end Node

namespace Bundle

theorem isPlain_toJson
    {bundle : Bundle}
    (words : bundle.tree.HasWordSpans) :
    bundle.toJson.IsPlain := by
  apply Json.IsPlain.object
  simp only [List.forall_mem_cons]
  exact ⟨.text _, .text _, Node.isPlain_toJson words, nofun⟩

theorem mapM_decode?_memberOf
    (members : List (String × Json)) :
    ((members.map Json.memberOf).mapM fun (key, value) => do
      return (← Json.decode? key, value)) = some members := by
  induction members with
  | nil => rfl
  | cons first others inductionHypothesis =>
      rw [List.map_cons, List.mapM_cons, inductionHypothesis]
      simp [Json.memberOf]

/-- A bundle is read back from its value, its tree without numbers and memos. -/
theorem ofJson?_toJson
    {bundle : Bundle}
    (words : bundle.tree.HasWordSpans)
    (shallow : bundle.toJson.depth ≤ Interchange.depthLimit) :
    ofJson? bundle.toJson = some { bundle with tree := bundle.tree.bare } := by
  have treeShallow : bundle.tree.toJson.depth ≤ Interchange.depthLimit - 1 :=
    Json.depth_ofMembers_le_iff.mp shallow ("tree", bundle.tree.toJson) (by simp)
  have ofTree := Interchange.treeWithin?_toJson ⟨words, treeShallow⟩
  rw [toJson, Json.ofMembers_eq, ofJson?, mapM_decode?_memberOf]
  simp [member?, ofParts?, stringOf?, Json.ofString, ofTree]

/-- No node is complained about exactly if the spans of all nodes fit. -/
theorem firstBadSpan?_eq_none_iff
    {source : String}
    {tree : Node} :
    firstBadSpan? source tree = none ↔ tree.FitsSource source := by
  rw [firstBadSpan?, List.find?_eq_none, Node.FitsSource, Node.tags, List.forall_mem_map]
  simp only [Bool.not_eq_true', Bool.not_eq_false]
  rfl

/-- A text is accepted exactly if it holds a bundle whose spans all fit. -/
theorem ofText_eq_ok_iff
    {explain : String → ReaderComplaint}
    {text : String}
    {bundle : Bundle} :
    ofText explain text = .ok bundle ↔
      (Json.parse? text).bind ofJson? = some bundle ∧ bundle.tree.FitsSource bundle.source := by
  unfold ofText
  split
  · next absent => simp [absent]
  · next found held =>
      rw [held, Option.some.injEq]
      split
      · next node bad =>
          refine ⟨nofun, ?_⟩
          rintro ⟨rfl, fits⟩
          rw [firstBadSpan?_eq_none_iff.mpr fits] at bad
          exact absurd bad nofun
      · next good =>
          rw [Except.ok.injEq]
          refine ⟨?_, And.left⟩
          rintro rfl
          exact ⟨rfl, firstBadSpan?_eq_none_iff.mp good⟩

end Bundle

namespace Interchange

/-- Trees and bundles are read back from their interchange texts, a bundle
exactly if its spans fit its source, and every tree that was read can be
written and read again. -/
theorem trees_and_bundles_round_trip (explain : String → ReaderComplaint) :
    (∀ tree : Node, tree.HasWordSpans → tree.toJson.depth ≤ depthLimit →
      ∃ copy, Node.ofText? tree.toText = some copy ∧ tree.alike copy = true) ∧
    (∀ bundle : Bundle, bundle.tree.HasWordSpans → bundle.toJson.depth ≤ depthLimit →
      ((∃ loaded, Bundle.ofText explain bundle.toJson.text = .ok loaded ∧
          loaded.file = bundle.file ∧ loaded.source = bundle.source ∧
          bundle.tree.alike loaded.tree = true) ↔
        bundle.tree.FitsSource bundle.source)) ∧
    ∀ (text : String) (tree : Node), Node.ofText? text = some tree →
      ∃ copy, Node.ofText? tree.toText = some copy ∧ tree.alike copy = true := by
  refine ⟨fun tree words shallow => ?_, fun bundle words shallow => ?_, fun text tree read => ?_⟩
  · exact ⟨tree.bare, Node.ofText?_toText ⟨words, shallow⟩, tree.alike_bare⟩
  · have held : (Json.parse? bundle.toJson.text).bind Bundle.ofJson? =
        some { bundle with tree := bundle.tree.bare } := by
      rw [(Bundle.isPlain_toJson words).parse?_text, Option.bind_some,
        Bundle.ofJson?_toJson words shallow]
    simp only [Bundle.ofText_eq_ok_iff, held, Option.some.injEq]
    constructor
    · rintro ⟨loaded, ⟨rfl, fits⟩, -⟩
      exact Node.fitsSource_bare_iff.mp fits
    · intro fits
      exact ⟨_, ⟨rfl, Node.fitsSource_bare_iff.mpr fits⟩, rfl, rfl, bundle.tree.alike_bare⟩
  · exact ⟨tree.bare, Node.ofText?_toText (Node.isWritable_of_ofText? read), tree.alike_bare⟩

/-- A rule whose last offset is the greatest of 64 bits. -/
def spannedTree : Node :=
  .rule ⟨7, ⟨0, 18446744073709551615⟩, {}⟩ true (.code ⟨8, ⟨0, 2⟩, ⟨some "E", none⟩⟩)
    (some (.unary ⟨9, ⟨3, 6⟩, {}⟩ .zeroOrMore (.any ⟨10, ⟨4, 5⟩, {}⟩)))
    (.choice ⟨11, ⟨6, 9⟩, {}⟩ [.literal ⟨12, ⟨6, 7⟩, {}⟩, .identifier ⟨13, ⟨8, 9⟩, {}⟩])

/-- A bundle whose texts must be escaped. -/
def escapedBundle : Bundle where
  file := "dir\\\"é\".g"
  source := "λ\t\u0001\n"
  tree := .sequence ⟨3, ⟨0, 5⟩, {}⟩ [.literal ⟨2, ⟨0, 2⟩, {}⟩, .comment ⟨1, ⟨3, 4⟩, {}⟩]

/-- A tree that was not written by the library: blanks, another order of
fields, a kind by its number and a field of no meaning. -/
def looseText : String :=
  "\x7b \"next\": 2, \"start\": 0, \"note\": [1.5e3, \"\\u00e9\"], \"op\": \"Optional\",\n" ++
    "  \"operand\": \x7b\"type\": 11, \"start\": 0, \"next\": 1\x7d, \"type\": \"Unary\" \x7d"

theorem round_trip_spannedTree :
    (∃ copy, Node.ofText? spannedTree.toText = some copy ∧ spannedTree.alike copy = true) ∧
    (∃ loaded, Bundle.ofText (fun _ => default) escapedBundle.toJson.text = .ok loaded ∧
      loaded.file = escapedBundle.file ∧ loaded.source = escapedBundle.source ∧
      escapedBundle.tree.alike loaded.tree = true) ∧
    ∃ tree, Node.ofText? looseText = some tree ∧
      ∃ copy, Node.ofText? tree.toText = some copy ∧ tree.alike copy = true := by
  obtain ⟨ofTrees, ofBundles, ofTexts⟩ := trees_and_bundles_round_trip fun _ => default
  obtain ⟨tree, read⟩ : ∃ tree, Node.ofText? looseText = some tree :=
    Option.isSome_iff_exists.mp (by decide +kernel)
  refine ⟨ofTrees spannedTree (by decide) (by decide), ?_, tree, read, ofTexts looseText tree read⟩
  exact (ofBundles escapedBundle (by decide) (by decide)).mpr (by decide)

end Interchange
end GrammarCompiler
