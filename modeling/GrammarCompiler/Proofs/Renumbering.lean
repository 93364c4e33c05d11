import GrammarCompiler.Proofs.InterchangeRoundTrip
import GrammarCompiler.Proofs.RetaggedSynthesis
import Mathlib.Logic.Equiv.Basic

/-!
# Numbers do not matter

Trees of the same shape with distinct numbers and without memos differ by a
permutation of the numbers.  A tree is settled by its shape and its tags, so such a
permutation is a retagging, and analysis and compilation do not see it.
-/

namespace GrammarCompiler

/-! ## Renumbering trees -/

/-- Give every node the number that its own number is sent to. -/
def Retagging.ofNumbers (number : Nat → Nat) : Retagging where
  change tag := Node.numberTag tag (number tag.id)
  number := number
  id_change _ := rfl
  span_change _ := rfl

theorem Retagging.keepsReadings_ofNumbers
    (number : Nat → Nat)
    (source : String)
    (tree : Node) :
    (ofNumbers number).KeepsReadings source tree :=
  fun _ _ => ⟨rfl, rfl⟩

/-- Lists of distinct numbers of one length differ by a permutation. -/
theorem exists_perm_map_eq
    {left right : List Nat}
    (leftDistinct : left.Nodup)
    (rightDistinct : right.Nodup)
    (sameLength : left.length = right.length) :
    ∃ number : Equiv.Perm Nat, left.map number = right := by
  induction left generalizing right with
  | nil => exact ⟨Equiv.refl Nat, (List.length_eq_zero_iff.mp sameLength.symm).symm⟩
  | cons first left inductionHypothesis =>
      cases right with
      | nil => cases sameLength
      | cons second right =>
          obtain ⟨notLater, leftDistinct⟩ := List.nodup_cons.mp leftDistinct
          obtain ⟨notLater', rightDistinct⟩ := List.nodup_cons.mp rightDistinct
          obtain ⟨number, rfl⟩ :=
            inductionHypothesis leftDistinct rightDistinct (Nat.succ.inj sameLength)
          -- Exchange the image of the first number with the one it must have.
          refine ⟨number.trans (Equiv.swap (number first) second), ?_⟩
          rw [List.map_cons, Equiv.trans_apply, Equiv.swap_apply_left, List.cons.injEq]
          refine ⟨rfl, List.map_congr_left fun key member => ?_⟩
          rw [Equiv.trans_apply, Equiv.swap_apply_of_ne_of_ne]
          · intro same
            exact notLater (number.injective same ▸ member)
          · rintro rfl
            exact notLater' (List.mem_map_of_mem member)

namespace Node

/-- Nothing was read of a tree before. -/
def RemembersNothing (tree : Node) : Prop :=
  ∀ tag ∈ tree.tags, tag.memo = {}

instance (tree : Node) : Decidable tree.RemembersNothing :=
  inferInstanceAs (Decidable (∀ tag ∈ tree.tags, tag.memo = {}))

/-- A node is put together from its shape, its children and its tag. -/
theorem withTag_withChildren_bare (node : Node) :
    (node.bare.withChildren node.children).withTag node.tag = node := by
  cases node with
  | declaration tag name base? => cases base? <;> rfl
  | rule tag isOverride name params? body => cases params? <;> rfl
  | _ => simp [bare, mapTags, withChildren, children, withTag, Node.tag]

theorem length_tags_bare (tree : Node) : tree.bare.tags.length = tree.tags.length := by
  rw [bare, tags_mapTags, List.length_map]

/-- Lists of trees are settled by their shapes and their tags, if each tree is. -/
theorem eq_of_map_bare_eq
    {lefts rights : List Node}
    (each : ∀ left ∈ lefts, ∀ right : Node,
      left.bare = right.bare → left.tags = right.tags → left = right)
    (sameShapes : lefts.map bare = rights.map bare)
    (sameTags : lefts.flatMap tags = rights.flatMap tags) :
    lefts = rights := by
  induction lefts generalizing rights with
  | nil => exact (List.map_eq_nil_iff.mp sameShapes.symm).symm
  | cons first lefts inductionHypothesis =>
      cases rights with
      | nil => cases sameShapes
      | cons second rights =>
          rw [List.map_cons, List.map_cons, List.cons.injEq] at sameShapes
          obtain ⟨firstShape, othersShape⟩ := sameShapes
          obtain ⟨ofFirst, ofOthers⟩ := List.forall_mem_cons.mp each
          have sameLength : first.tags.length = second.tags.length := by
            rw [← length_tags_bare, firstShape, length_tags_bare]
          obtain ⟨firstTags, othersTags⟩ := List.append_inj sameTags sameLength
          rw [ofFirst second firstShape firstTags,
            inductionHypothesis ofOthers othersShape othersTags]

/-- A tree is settled by its shape and its tags. -/
theorem eq_of_bare_eq
    {left right : Node}
    (sameShape : left.bare = right.bare)
    (sameTags : left.tags = right.tags) :
    left = right := by
  induction left using childInduction generalizing right with
  | step left ofChildren =>
      rw [tags_eq_cons, tags_eq_cons right, List.cons.injEq] at sameTags
      obtain ⟨sameTag, sameBelow⟩ := sameTags
      have sameShapes : left.children.map bare = right.children.map bare := by
        have below := congrArg children sameShape
        rwa [bare, bare, children_mapTags, children_mapTags] at below
      have sameChildren : left.children = right.children :=
        eq_of_map_bare_eq (fun child isChild _ => ofChildren child isChild) sameShapes sameBelow
      rw [← withTag_withChildren_bare left, ← withTag_withChildren_bare right, sameShape,
        sameChildren, sameTag]

/-- Trees of one shape without memos differ by their numbers only. -/
theorem eq_mapTags_ofNumbers
    {tree tree' : Node}
    (sameShape : tree.bare = tree'.bare)
    (nothing : tree.RemembersNothing)
    (nothing' : tree'.RemembersNothing)
    {number : Nat → Nat}
    (renumbered : tree.ids.map number = tree'.ids) :
    tree' = tree.mapTags (Retagging.ofNumbers number).change := by
  have recovered {node : Node} (fresh : node.RemembersNothing) :
      List.zipWith numberTag (node.tags.map Tag.bare) node.ids = node.tags := by
    rw [ids, List.zipWith_map, List.zipWith_self]
    refine (List.map_congr_left fun tag member => ?_).trans (List.map_id _)
    obtain ⟨id, span, memo⟩ := tag
    cases fresh _ member
    rfl
  have sameBare : tree'.tags.map Tag.bare = tree.tags.map Tag.bare := by
    rw [← tags_mapTags, ← tags_mapTags]
    exact congrArg tags sameShape.symm
  apply eq_of_bare_eq
  · rw [← sameShape, bare, bare, mapTags_mapTags]
    rfl
  · rw [tags_mapTags, ← recovered nothing', sameBare, ← renumbered, ids, List.map_map,
      List.zipWith_map, List.zipWith_self]
    refine List.map_congr_left fun tag member => ?_
    obtain ⟨id, span, memo⟩ := tag
    cases nothing _ member
    rfl

/-! ## Numbering in preorder -/

theorem bare_numberTag
    (tag : Tag)
    (number : Nat) :
    (numberTag tag number).bare = tag.bare := rfl

theorem tag_numbered
    (first : Nat)
    (node : Node) :
    (node.numbered first).tag = numberTag node.tag first := by
  cases node with
  | declaration tag name base? => cases base? <;> rfl
  | rule tag isOverride name params? body => cases params? <;> rfl
  | _ => rfl

theorem numberedAll_append
    (first : Nat)
    (left right : List Node) :
    numberedAll first (left ++ right) =
      numberedAll first left ++ numberedAll (first + sizes left) right := by
  induction left generalizing first with
  | nil => rfl
  | cons node left inductionHypothesis =>
      rw [List.cons_append, numberedAll, numberedAll, inductionHypothesis, sizes,
        List.cons_append, Nat.add_assoc]

theorem children_numbered
    (first : Nat)
    (node : Node) :
    (node.numbered first).children = numberedAll (first + 1) node.children := by
  cases node with
  | file tag preamble grammars => rw [numbered, children, children, numberedAll_append]
  | declaration tag name base? => cases base? <;> rfl
  | rule tag isOverride name params? body => cases params? <;> rfl
  | _ => rfl

/-- Numbering keeps the shape of a tree. -/
theorem bare_numbered
    (first : Nat)
    (node : Node) :
    (node.numbered first).bare = node.bare := by
  have ofMembers
      {nodes : List Node}
      (each : ∀ node ∈ nodes, ∀ first,
        (node.numbered first).mapTags Tag.bare = node.mapTags Tag.bare)
      (first : Nat) :
      (numberedAll first nodes).map (mapTags Tag.bare) = nodes.map (mapTags Tag.bare) := by
    induction nodes generalizing first with
    | nil => rfl
    | cons node nodes inductionHypothesis =>
        obtain ⟨ofNode, ofOthers⟩ := List.forall_mem_cons.mp each
        rw [numberedAll, List.map_cons, ofNode, inductionHypothesis ofOthers, List.map_cons]
  unfold bare
  induction node generalizing first with
  | file tag preamble grammars ofPreamble ofGrammars =>
      simp only [numbered, mapTags, mapTagsAll_eq_map, bare_numberTag, ofMembers ofPreamble,
        ofMembers ofGrammars]
  | declaration tag name base? ofName ofBase =>
      cases base? with
      | none => simp only [numbered, mapTags, bare_numberTag, ofName]
      | some base => simp only [numbered, mapTags, bare_numberTag, ofName, ofBase base rfl]
  | rule tag isOverride name params? body ofName ofParams ofBody =>
      cases params? with
      | none => simp only [numbered, mapTags, bare_numberTag, ofName, ofBody]
      | some params =>
          simp only [numbered, mapTags, bare_numberTag, ofName, ofParams params rfl, ofBody]
  | grammar tag other others ofOther ofOthers
  | genericName tag other others ofOther ofOthers
  | call tag other others ofOther ofOthers =>
      simp only [numbered, mapTags, mapTagsAll_eq_map, bare_numberTag, ofOther,
        ofMembers ofOthers]
  | binding tag left right ofLeft ofRight
  | condition tag left right ofLeft ofRight
  | action tag left right ofLeft ofRight =>
      simp only [numbered, mapTags, bare_numberTag, ofLeft, ofRight]
  | usingDirective tag only ofOnly
  | unary tag operator only ofOnly
  | fail tag only ofOnly => simp only [numbered, mapTags, bare_numberTag, ofOnly]
  | sequence tag members ofAll
  | choice tag members ofAll =>
      simp only [numbered, mapTags, mapTagsAll_eq_map, bare_numberTag, ofMembers ofAll]
  | _ => simp only [numbered, mapTags, bare_numberTag]

theorem flatMap_tags_numberedAll
    {nodes : List Node}
    (each : ∀ node ∈ nodes, ∀ first, (node.numbered first).tags =
      List.zipWith numberTag node.tags (List.range' first node.size))
    (first : Nat) :
    (numberedAll first nodes).flatMap tags =
      List.zipWith numberTag (nodes.flatMap tags) (List.range' first (sizes nodes)) := by
  induction nodes generalizing first with
  | nil => rfl
  | cons node nodes inductionHypothesis =>
      obtain ⟨ofNode, ofOthers⟩ := List.forall_mem_cons.mp each
      rw [numberedAll, List.flatMap_cons, ofNode, inductionHypothesis ofOthers, sizes,
        ← List.range'_append_1, List.flatMap_cons, List.zipWith_append]
      rw [length_tags, List.length_range']

/-- The nodes of a numbered tree carry consecutive numbers in preorder. -/
theorem tags_numbered
    (first : Nat)
    (node : Node) :
    (node.numbered first).tags =
      List.zipWith numberTag node.tags (List.range' first node.size) := by
  induction node using childInduction generalizing first with
  | step node ofChildren =>
      rw [tags_eq_cons, tag_numbered, children_numbered,
        flatMap_tags_numberedAll ofChildren, tags_eq_cons node, size_eq_succ_sizes,
        Nat.add_comm 1, List.range'_succ, List.zipWith_cons_cons]

theorem ids_numbered
    (first : Nat)
    (node : Node) :
    (node.numbered first).ids = List.range' first node.size := by
  have enough : (List.range' first node.size).length ≤ node.tags.length := by
    rw [length_tags, List.length_range']
  have numbers := List.map_snd_zip enough
  rw [List.zip, List.map_zipWith] at numbers
  rw [ids, tags_numbered, List.map_zipWith]
  exact numbers

theorem DistinctIds.numbered
    (first : Nat)
    (node : Node) :
    (node.numbered first).DistinctIds := by
  rw [DistinctIds, ids_numbered]
  exact List.nodup_range'

theorem RemembersNothing.numbered
    {node : Node}
    (nothing : node.RemembersNothing)
    (first : Nat) :
    (node.numbered first).RemembersNothing := by
  have enough : node.tags.length ≤ (List.range' first node.size).length := by
    rw [length_tags, List.length_range']
  have sameMemos : (node.numbered first).tags.map Tag.memo = node.tags.map Tag.memo := by
    have memos := congrArg (List.map Tag.memo) (List.map_fst_zip enough)
    rw [List.zip, List.map_zipWith, List.map_zipWith] at memos
    rw [tags_numbered, List.map_zipWith]
    exact memos
  intro tag member
  have isMemo : tag.memo ∈ node.tags.map Tag.memo := sameMemos ▸ List.mem_map_of_mem member
  obtain ⟨former, isFormer, same⟩ := List.mem_map.mp isMemo
  rw [← same, nothing former isFormer]

theorem bare_bare (tree : Node) : tree.bare.bare = tree.bare := by
  rw [bare, bare, mapTags_mapTags]
  rfl

theorem remembersNothing_bare (tree : Node) : tree.bare.RemembersNothing := by
  rw [RemembersNothing, bare, tags_mapTags, List.forall_mem_map]
  exact fun _ _ => rfl

end Node

/-! ## Analysis and compilation -/

/-- Two analyses hold the same under numbers that correspond. -/
structure Analysis.CorrespondsTo
    (number : Nat → Nat)
    (left right : Analysis) : Prop where
  ruleNames : right.ruleNames = left.ruleNames
  imports : right.imports = left.imports
  grammars : right.grammars = left.grammars.map (GrammarAnalysis.renumber number)
  resolution (id : Nat) : right.resolution? (number id) = left.resolution? id
  argument (id : Nat) : right.argument? (number id) = left.argument? id
  grammar (id : Nat) :
    right.grammar? (number id) = (left.grammar? id).map (GrammarAnalysis.renumber number)

/-- Two analyses fail with the same failure, or they succeed and hold the same under
numbers that correspond. -/
inductive AnalysesCorrespond (number : Nat → Nat) :
    Except Failure Analysis → Except Failure Analysis → Prop where
  | failed (failure : Failure) : AnalysesCorrespond number (.error failure) (.error failure)
  | succeeded {left right : Analysis} :
      left.CorrespondsTo number right → AnalysesCorrespond number (.ok left) (.ok right)

theorem Analysis.correspondsTo_renumber
    {number : Nat → Nat}
    (injective : Function.Injective number)
    (analysis : Analysis) :
    analysis.CorrespondsTo number (analysis.renumber number) where
  ruleNames := rfl
  imports := rfl
  grammars := rfl
  resolution := analysis.resolution?_renumber injective
  argument := analysis.argument?_renumber injective
  grammar := analysis.grammar?_renumber injective

theorem analysesCorrespond_ofNumbers
    {number : Nat → Nat}
    (injective : Function.Injective number)
    (source : String)
    (tree : Node) :
    AnalysesCorrespond number (analyze source tree)
      (analyze source (tree.mapTags (Retagging.ofNumbers number).change)) := by
  rw [analyze_mapTags_eq (Retagging.keepsReadings_ofNumbers number source tree)]
  cases analyze source tree with
  | error failure => exact .failed failure
  | ok analysis => exact .succeeded (analysis.correspondsTo_renumber injective)

/-- Trees of one shape without memos and with distinct numbers differ by a
permutation of the numbers. -/
theorem exists_renumbering
    {tree tree' : Node}
    (sameShape : tree.bare = tree'.bare)
    (nothing : tree.RemembersNothing)
    (nothing' : tree'.RemembersNothing)
    (distinct : tree.DistinctIds)
    (distinct' : tree'.DistinctIds) :
    ∃ number : Equiv.Perm Nat, tree.ids.map number = tree'.ids ∧
      tree' = tree.mapTags (Retagging.ofNumbers number).change := by
  have sameLength : tree.ids.length = tree'.ids.length := by
    rw [Node.ids, Node.ids, List.length_map, List.length_map, ← Node.length_tags_bare, sameShape,
      Node.length_tags_bare]
  obtain ⟨number, renumbered⟩ := exists_perm_map_eq distinct distinct' sameLength
  exact ⟨number, renumbered,
    Node.eq_mapTags_ofNumbers sameShape nothing nothing' renumbered⟩

theorem compile_eq_of_bare_eq
    {tree tree' : Node}
    (sameShape : tree.bare = tree'.bare)
    (nothing : tree.RemembersNothing)
    (nothing' : tree'.RemembersNothing)
    (distinct : tree.DistinctIds)
    (distinct' : tree'.DistinctIds)
    (settings : Settings) :
    compile settings tree' = compile settings tree := by
  obtain ⟨number, -, rfl⟩ := exists_renumbering sameShape nothing nothing' distinct distinct'
  have injective : Function.Injective (Retagging.ofNumbers number).number := number.injective
  exact compile_mapTags injective
    (Retagging.keepsReadings_ofNumbers number settings.source tree)

/-- Numbers do not influence the result.  Of two trees that are alike, without memos
and each with distinct numbers, both analyses fail alike or hold the same under the
permutation that takes the numbers of one tree, in preorder, to those of the other,
and both compilations give the same.  So does the compilation of what is read back
from the text of the tree, whatever distinct numbers it is given. -/
theorem numbers_do_not_matter
    {tree tree' : Node}
    (alike : tree.alike tree' = true)
    (nothing : tree.RemembersNothing)
    (nothing' : tree'.RemembersNothing)
    (distinct : tree.DistinctIds)
    (distinct' : tree'.DistinctIds)
    (settings : Settings) :
    (∃ number : Equiv.Perm Nat, tree.ids.map number = tree'.ids ∧
      AnalysesCorrespond number (analyze settings.source tree)
        (analyze settings.source tree')) ∧
    compile settings tree' = compile settings tree ∧
    (tree.IsWritable Interchange.depthLimit →
      ∃ copy, Node.ofText? tree.toText = some copy ∧
        (∀ first, compile settings (copy.numbered first) = compile settings tree) ∧
        ∀ reread, copy.alike reread = true → reread.RemembersNothing → reread.DistinctIds →
          compile settings reread = compile settings tree) := by
  have sameShape := Node.bare_eq_of_alike alike
  refine ⟨?_, compile_eq_of_bare_eq sameShape nothing nothing' distinct distinct' settings, ?_⟩
  · obtain ⟨number, renumbered, rfl⟩ :=
      exists_renumbering sameShape nothing nothing' distinct distinct'
    exact ⟨number, renumbered,
      analysesCorrespond_ofNumbers number.injective settings.source tree⟩
  · intro writable
    refine ⟨tree.bare, Node.ofText?_toText writable, fun first => ?_, ?_⟩
    · have copyShape : tree.bare = (tree.bare.numbered first).bare := by
        rw [Node.bare_numbered, Node.bare_bare]
      exact compile_eq_of_bare_eq copyShape nothing
        ((Node.remembersNothing_bare tree).numbered first) distinct
        (Node.DistinctIds.numbered first tree.bare) settings
    · intro reread alikeCopy freshCopy distinctCopy
      have copyShape : tree.bare = reread.bare := by
        rw [← Node.bare_eq_of_alike alikeCopy, Node.bare_bare]
      exact compile_eq_of_bare_eq copyShape nothing freshCopy distinct distinctCopy settings

/-- A rule that calls itself with a bound name. -/
def selfCallSource : String :=
  "G<c, i> A = x:A(x);"

/-- The tree of `selfCallSource`, numbered in preorder. -/
def selfCallTree : Node :=
  .file ⟨1, ⟨0, 19⟩, {}⟩ []
    [.grammar ⟨2, ⟨0, 19⟩, {}⟩
      (.declaration ⟨3, ⟨0, 7⟩, {}⟩
        (.genericName ⟨4, ⟨0, 7⟩, {}⟩ (.code ⟨5, ⟨0, 1⟩, {}⟩)
          [.code ⟨6, ⟨2, 3⟩, {}⟩, .code ⟨7, ⟨5, 6⟩, {}⟩]) none)
      [.rule ⟨8, ⟨8, 19⟩, {}⟩ false (.code ⟨9, ⟨8, 9⟩, {}⟩) none
        (.binding ⟨10, ⟨12, 18⟩, {}⟩
          (.call ⟨11, ⟨14, 18⟩, {}⟩ (.code ⟨12, ⟨14, 15⟩, {}⟩)
            [.identifier ⟨13, ⟨16, 17⟩, {}⟩])
          (.code ⟨14, ⟨12, 13⟩, {}⟩))]]

/-- The tree of `selfCallSource`, numbered the other way round. -/
def reversedSelfCallTree : Node :=
  selfCallTree.mapTags fun tag => Node.numberTag tag (15 - tag.id)

/-- Both trees of `selfCallSource` are analyzed, and the second finds under the last
number but one what the first finds under the second. -/
theorem numbers_do_not_matter_selfCallTree :
    (selfCallTree.alike reversedSelfCallTree = true ∧
      selfCallTree.RemembersNothing ∧ reversedSelfCallTree.RemembersNothing ∧
      selfCallTree.DistinctIds ∧ reversedSelfCallTree.DistinctIds ∧
      selfCallTree.IsWritable Interchange.depthLimit) ∧
    (analyze selfCallSource selfCallTree).toOption.map (·.resolution? 13) =
      some (some (.slot "x")) ∧
    (analyze selfCallSource reversedSelfCallTree).toOption.map (·.resolution? 2) =
      some (some (.slot "x")) ∧
    (∃ number : Equiv.Perm Nat, selfCallTree.ids.map number = reversedSelfCallTree.ids ∧
      AnalysesCorrespond number (analyze selfCallSource selfCallTree)
        (analyze selfCallSource reversedSelfCallTree)) ∧
    compile { source := selfCallSource, namespaceName? := some "N" } reversedSelfCallTree =
      compile { source := selfCallSource, namespaceName? := some "N" } selfCallTree := by
  have alike : selfCallTree.alike reversedSelfCallTree = true := by decide
  have nothing : selfCallTree.RemembersNothing := by decide
  have nothing' : reversedSelfCallTree.RemembersNothing := by decide
  have distinct : selfCallTree.DistinctIds := by decide
  have distinct' : reversedSelfCallTree.DistinctIds := by decide
  have writable : selfCallTree.IsWritable Interchange.depthLimit := ⟨by decide, by decide⟩
  obtain ⟨correspond, compiled, -⟩ := numbers_do_not_matter alike nothing nothing' distinct
    distinct' { source := selfCallSource, namespaceName? := some "N" }
  exact ⟨⟨alike, nothing, nothing', distinct, distinct', writable⟩, by decide +kernel,
    by decide +kernel, correspond, compiled⟩

end GrammarCompiler
