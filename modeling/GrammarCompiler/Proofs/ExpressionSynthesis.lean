import GrammarCompiler.Proofs.TableEntries
import GrammarCompiler.Synthesis.Synthesize

/-!
# Synthesis of expressions succeeds

Synthesis asks the analysis about the identifiers, calls and arguments that the
walk of an expression mentions.  If the analysis knows all of them and the spans
of the tree fit the source, an expression becomes a combinator.
-/

namespace GrammarCompiler

/-- Steps succeed together if the first does and the next does after it. -/
theorem exists_bind_eq_ok
    {first : Except ε α}
    {next : α → Except ε β}
    (firstSucceeds : ∃ value, first = .ok value)
    (nextSucceeds : ∀ value, ∃ result, next value = .ok result) :
    ∃ result, first >>= next = .ok result := by
  obtain ⟨value, isValue⟩ := firstSucceeds
  obtain ⟨result, isResult⟩ := nextSucceeds value
  exact ⟨result, bind_eq_ok.mpr ⟨value, isValue, isResult⟩⟩

namespace Node.FitsSource

variable {source : String} {node : Node}

theorem child
    (fits : node.FitsSource source)
    {child : Node}
    (isChild : child ∈ node.children) :
    child.FitsSource source :=
  fun tag member => fits tag (tags_subset_of_mem_children isChild member)

/-- The text of a node can be read. -/
theorem exists_read
    (fits : node.FitsSource source) :
    ∃ text, node.tag.read source = .ok text := by
  obtain ⟨text, found⟩ := Tag.exists_text_of_fits (fits node.tag (tag_mem_tags node))
  exact ⟨text, Tag.read_eq_ok.mpr found⟩

theorem exists_readTrimmed
    (fits : node.FitsSource source) :
    ∃ text, node.tag.readTrimmed source = .ok text := by
  obtain ⟨text, found⟩ := Tag.exists_text_of_fits (fits node.tag (tag_mem_tags node))
  exact ⟨Text.trim text, Tag.readTrimmed_eq_ok.mpr ⟨text, found, rfl⟩⟩

end Node.FitsSource

namespace Mention

/-- The analysis knows what synthesis asks about a mention. -/
def IsKnown (analysis : Analysis) : Mention → Prop
  | .identifier tag => ∃ resolution, analysis.resolution? tag.id = some resolution
  | .callee id _ => ∃ resolution, analysis.resolution? id = some resolution
  | .argument tag => ∃ kind, analysis.argument? tag.id = some kind
  | .binding _ => True
  | .misplaced _ _ => False

/-- What the definitions of an analyzed file mention is known. -/
theorem isKnown_of_analyzed
    {source : String}
    {tree : Node}
    {analysis : Analysis}
    (analyzed : analyze source tree = .ok analysis)
    {definition : Definition}
    (isDefinition : definition ∈ tree.fileDefinitions)
    {mention : Mention}
    (isMention : mention ∈ definition.mentions) :
    mention.IsKnown analysis := by
  have readable := Analysis.isReadable_of_mem_fileDefinitions analyzed isDefinition
  cases mention with
  | identifier tag =>
      exact (Analysis.exists_resolution_iff analyzed).mpr
        ⟨definition, isDefinition, _, isMention, rfl⟩
  | callee id name =>
      exact (Analysis.exists_resolution_iff analyzed).mpr
        ⟨definition, isDefinition, _, isMention, rfl⟩
  | argument tag =>
      exact (Analysis.exists_argument_iff analyzed).mpr
        ⟨definition, isDefinition, _, isMention, rfl⟩
  | binding captured => trivial
  | misplaced kind tag =>
      obtain ⟨occurrence, read⟩ := readable.mentions _ isMention
      cases read

end Mention

namespace Synthesis

variable {source : String} {analysis : Analysis}

theorem exists_resolve
    {tag : Tag}
    (known : ∃ resolution, analysis.resolution? tag.id = some resolution) :
    ∃ resolution, resolve source analysis tag = .ok resolution := by
  obtain ⟨resolution, found⟩ := known
  exact ⟨resolution, by rw [resolve, found]⟩

theorem exists_callArgument
    {node : Node}
    (fits : node.FitsSource source)
    (known : ∃ kind, analysis.argument? node.tag.id = some kind) :
    ∃ argument, callArgument source analysis node.tag = .ok argument := by
  refine exists_bind_eq_ok fits.exists_readTrimmed fun text => ?_
  obtain ⟨kind, found⟩ := known
  rw [found]
  cases kind <;> exact ⟨_, rfl⟩

theorem exists_hostCode
    {node : Node}
    (fits : node.FitsSource source) :
    ∃ code, hostCode source node.tag = .ok code :=
  exists_bind_eq_ok fits.exists_read fun _ => ⟨_, rfl⟩

/-- An expression becomes a combinator if the analysis knows what it
mentions. -/
theorem exists_combinator
    {node : Node}
    (fits : node.FitsSource source)
    (known : ∀ mention ∈ node.mentions, mention.IsKnown analysis) :
    ∃ result, combinator source analysis node = .ok result := by
  induction node with
  | literal tag =>
      rw [combinator]
      exact exists_bind_eq_ok fits.exists_read fun _ => ⟨_, rfl⟩
  | any tag => exact ⟨.any, by rw [combinator]⟩
  | identifier tag =>
      have resolved := known (.identifier tag) List.mem_cons_self
      rw [combinator]
      exact exists_bind_eq_ok (exists_resolve resolved) fun _ => ⟨_, rfl⟩
  | call tag name arguments =>
      have resolved := known (.callee tag.id name.tag) List.mem_cons_self
      rw [combinator]
      refine exists_bind_eq_ok (exists_resolve resolved) fun resolution => ?_
      refine exists_bind_eq_ok (exists_mapM_eq_ok fun argument member => ?_) fun _ => ⟨_, rfl⟩
      refine exists_callArgument (fits.child (List.mem_cons_of_mem _ member)) ?_
      apply known (.argument argument.tag)
      rw [Node.mentions, Node.argumentMentions_eq_flatMap]
      exact List.mem_cons_of_mem _ (List.mem_flatMap.mpr ⟨argument, member, List.mem_cons_self⟩)
  | unary tag operator operand ofOperand =>
      rw [combinator]
      refine exists_bind_eq_ok (ofOperand (fits.child List.mem_cons_self) known) fun _ => ⟨_, rfl⟩
  | binding tag operand captured ofOperand =>
      have operandSucceeds := ofOperand (fits.child List.mem_cons_self) fun mention member =>
        known mention (List.mem_cons_of_mem _ member)
      have capturedFits := fits.child (List.mem_cons_of_mem _ List.mem_cons_self)
      rw [combinator]
      refine exists_bind_eq_ok operandSucceeds fun _ => ?_
      exact exists_bind_eq_ok capturedFits.exists_readTrimmed fun _ => ⟨_, rfl⟩
  | condition tag operand code ofOperand
  | action tag operand code ofOperand =>
      have codeFits := fits.child (List.mem_cons_of_mem _ List.mem_cons_self)
      rw [combinator]
      refine exists_bind_eq_ok (ofOperand (fits.child List.mem_cons_self) known) fun _ => ?_
      exact exists_bind_eq_ok (exists_hostCode codeFits) fun _ => ⟨_, rfl⟩
  | sequence tag members ofMembers
  | choice tag members ofMembers =>
      have each : ∀ member ∈ members,
          ∃ result, combinator source analysis member = .ok result := by
        intro member inMembers
        refine ofMembers member inMembers (fits.child inMembers) fun mention inside => ?_
        apply known
        rw [Node.mentions, Node.mentionsAll_eq_flatMap]
        exact List.mem_flatMap.mpr ⟨member, inMembers, inside⟩
      by_cases single : ∃ member, members = [member]
      · obtain ⟨member, rfl⟩ := single
        rw [combinator]
        exact each member List.mem_cons_self
      · rw [combinator, combinators_eq_mapM]
        · exact exists_bind_eq_ok (exists_mapM_eq_ok each) fun _ => ⟨_, rfl⟩
        · exact fun member isSingle => single ⟨member, isSingle⟩
  | fail tag message =>
      have messageFits := fits.child List.mem_cons_self
      rw [combinator]
      exact exists_bind_eq_ok messageFits.exists_read fun _ => ⟨_, rfl⟩
  | _ => exact (known _ List.mem_cons_self).elim

end Synthesis
end GrammarCompiler
