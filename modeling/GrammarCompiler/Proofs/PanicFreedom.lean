import GrammarCompiler.Proofs.Acceptance
import GrammarCompiler.Proofs.CanonicalSpelling
import GrammarCompiler.Proofs.InterchangeRoundTrip
import GrammarCompiler.Proofs.SourceSlices
import GrammarCompiler.Proofs.SynthesisOutcome

/-!
# Loaded bundles are compiled within their source

The passes read the texts of nodes wherever they need them.  If the spans of all
nodes fit the source, which is checked once when a bundle is loaded, no pass
asks for a text that the source does not have: whenever synthesis fails, it
reports a breach, and whenever analysis fails, a violation.
-/

namespace GrammarCompiler

/-- A step asks for a text that the source does not have. -/
def ReadsOutside (step : Except Failure α) : Prop :=
  ∃ span, step = .error (.unreadable span)

/-- A failure says that passes are put together wrongly. -/
def Failure.IsBreach (failure : Failure) : Prop :=
  ∃ cause, failure = .breach cause

/-! ## Synthesis -/

namespace Synthesis

variable {source : String} {analysis : Analysis}

theorem failsOnly_resolve
    {node : Node}
    (fits : node.FitsSource source) :
    FailsOnly Failure.IsBreach (resolve source analysis node.tag) := by
  unfold resolve
  split
  · exact .ok _
  · obtain ⟨name, isRead⟩ := fits.exists_readTrimmed
    exact .bind (.of_ok isRead) fun _ => .error ⟨_, rfl⟩

theorem failsOnly_callArgument
    {node : Node}
    (fits : node.FitsSource source) :
    FailsOnly Failure.IsBreach (callArgument source analysis node.tag) := by
  obtain ⟨text, isRead⟩ := fits.exists_readTrimmed
  refine .bind (.of_ok isRead) fun _ => ?_
  split
  · exact .ok _
  · exact .ok _
  · exact .ok _
  · exact .error ⟨_, rfl⟩

theorem failsOnly_hostCode
    {node : Node}
    (fits : node.FitsSource source) :
    FailsOnly Failure.IsBreach (hostCode source node.tag) := by
  obtain ⟨code, isRead⟩ := exists_hostCode fits
  exact .of_ok isRead

/-- The synthesis of an expression fails with a breach, if at all. -/
theorem failsOnly_combinator
    {node : Node}
    (fits : node.FitsSource source) :
    FailsOnly Failure.IsBreach (combinator source analysis node) := by
  induction node with
  | literal tag =>
      obtain ⟨text, isRead⟩ := fits.exists_read
      rw [combinator]
      exact .bind (.of_ok isRead) fun _ => .ok _
  | any tag =>
      rw [combinator]
      exact .ok _
  | identifier tag =>
      rw [combinator]
      exact .bind (failsOnly_resolve fits) fun _ => .ok _
  | call tag name arguments =>
      rw [combinator]
      refine .bind (failsOnly_resolve fits) fun _ => ?_
      refine .bind (.mapM fun argument member => ?_) fun _ => .ok _
      exact failsOnly_callArgument (fits.child (List.mem_cons_of_mem _ member))
  | unary tag operator operand ofOperand =>
      rw [combinator]
      exact .bind (ofOperand (fits.child List.mem_cons_self)) fun _ => .ok _
  | binding tag operand captured ofOperand =>
      have capturedFits := fits.child (List.mem_cons_of_mem _ List.mem_cons_self)
      obtain ⟨name, isRead⟩ := capturedFits.exists_readTrimmed
      rw [combinator]
      refine .bind (ofOperand (fits.child List.mem_cons_self)) fun _ => ?_
      exact .bind (.of_ok isRead) fun _ => .ok _
  | condition tag operand code ofOperand
  | action tag operand code ofOperand =>
      have codeFits := fits.child (List.mem_cons_of_mem _ List.mem_cons_self)
      rw [combinator]
      refine .bind (ofOperand (fits.child List.mem_cons_self)) fun _ => ?_
      exact .bind (failsOnly_hostCode codeFits) fun _ => .ok _
  | sequence tag members ofMembers
  | choice tag members ofMembers =>
      have each : ∀ member ∈ members,
          FailsOnly Failure.IsBreach (combinator source analysis member) :=
        fun member inMembers => ofMembers member inMembers (fits.child inMembers)
      by_cases single : ∃ member, members = [member]
      · obtain ⟨member, rfl⟩ := single
        rw [combinator]
        exact each member List.mem_cons_self
      · rw [combinator, combinators_eq_mapM]
        · exact .bind (.mapM each) fun _ => .ok _
        · exact fun member isSingle => single ⟨member, isSingle⟩
  | fail tag message =>
      have messageFits := fits.child List.mem_cons_self
      obtain ⟨text, isRead⟩ := messageFits.exists_read
      rw [combinator]
      exact .bind (.of_ok isRead) fun _ => .ok _
  | _ =>
      rw [combinator]
      exact .error ⟨_, rfl⟩

/-- The spans of the expressions of a rule fit the source. -/
def RuleNode.Fits (source : String) (rule : RuleNode) : Prop :=
  (∀ params ∈ rule.params?, params.FitsSource source) ∧ rule.body.FitsSource source

/-- The rules that synthesis collects from a tree fit if the tree does. -/
theorem fits_of_mem_ruleNodes
    {node : Node}
    (fits : node.FitsSource source)
    {rule : RuleNode}
    (member : rule ∈ ruleNodes node) :
    rule.Fits source := by
  rw [ruleNodes_eq_map_rulesIn] at member
  obtain ⟨found, isFound, rfl⟩ := List.mem_map.mp member
  have reached := Node.mem_rulesIn_iff.mp isFound
  have foundFits := fits.reached reached
  cases found with
  | rule tag isOverride name params? body =>
      refine ⟨fun params isParams => foundFits.child ?_, foundFits.child ?_⟩
      · simp [Node.children, show params? = some params from isParams]
      · simp [Node.children, Node.ruleNode, Node.ruleBody]
  | _ => cases reached.kind_eq

theorem failsOnly_ruleCombinator
    {rule : RuleNode}
    (fits : rule.Fits source) :
    FailsOnly Failure.IsBreach (ruleCombinator source analysis rule) := by
  have ofBody : FailsOnly Failure.IsBreach (combinator source analysis rule.body) :=
    failsOnly_combinator fits.2
  unfold ruleCombinator
  split
  · next params isParams =>
      refine .bind (failsOnly_combinator (fits.1 params isParams)) fun _ => ?_
      exact .bind ofBody fun _ => .ok _
  · exact ofBody

theorem failsOnly_blocks
    {rules : List RuleNode}
    (fits : ∀ rule ∈ rules, rule.Fits source)
    (name : String)
    (index : Nat)
    (alternatives : List Alternative) :
    FailsOnly Failure.IsBreach (blocks source analysis rules name index alternatives) := by
  induction alternatives generalizing index with
  | nil => exact .ok _
  | cons alternative alternatives inductionHypothesis =>
      unfold blocks
      split
      · exact .error ⟨_, rfl⟩
      · next rule found =>
          have inRules := List.mem_reverse.mp (List.mem_of_find?_eq_some found)
          refine .bind (failsOnly_ruleCombinator (fits rule inRules)) fun _ => ?_
          exact .bind (inductionHypothesis (index + 1)) fun _ => .ok _

theorem failsOnly_matcherFunction
    {rules : List RuleNode}
    (fits : ∀ rule ∈ rules, rule.Fits source)
    (set : AlternativeSet) :
    FailsOnly Failure.IsBreach (matcherFunction source analysis rules set) := by
  refine .bind (failsOnly_blocks fits set.name 0 set.alternatives) fun blocks => ?_
  split
  · exact .bind (.error ⟨_, rfl⟩) fun _ => .ok _
  · exact .ok _

theorem failsOnly_matcherClass
    {node : Node}
    (fits : node.FitsSource source) :
    FailsOnly Failure.IsBreach (matcherClass source analysis node) := by
  unfold matcherClass
  split
  · exact .error ⟨_, rfl⟩
  · refine .bind (.mapM fun set _ => ?_) fun _ => .ok _
    exact failsOnly_matcherFunction (fun rule member => fits_of_mem_ruleNodes fits member) set

/-- The generated file of a tree whose spans fit, whatever the analysis holds. -/
theorem failsOnly_parserFile
    {settings : Settings}
    {tree : Node}
    (fits : tree.FitsSource settings.source) :
    FailsOnly Failure.IsBreach (parserFile settings analysis tree) := by
  have ofNamespace : FailsOnly Failure.IsBreach settings.requireNamespace := by
    by_cases given : settings.HasNamespace
    · obtain ⟨name, isName⟩ := Settings.exists_requireNamespace given
      exact .of_ok isName
    · rw [Settings.requireNamespace_eq_error given]
      exact .error ⟨_, rfl⟩
  refine .bind ofNamespace fun _ => ?_
  cases tree with
  | file tag preamble grammars =>
      refine .bind (.mapM fun node member => ?_) fun _ => ?_
      · obtain ⟨line, isLine⟩ := exists_preambleLine (fits.child (List.mem_append_left _ member))
        exact .of_ok isLine
      · refine .bind (.mapM fun node member => ?_) fun _ => .ok _
        exact failsOnly_matcherClass (fits.child (List.mem_append_right _ member))
  | _ => exact .error ⟨_, rfl⟩

end Synthesis

theorem not_readsOutside_generate
    {settings : Settings}
    {tree : Node}
    (fits : tree.FitsSource settings.source)
    (analysis : Analysis) :
    ¬ReadsOutside (generate settings analysis tree) := by
  rintro ⟨span, failed⟩
  obtain ⟨cause, same⟩ := (Synthesis.failsOnly_parserFile fits).map ParserFile.text _ failed
  exact absurd same nofun

/-- Analysis fails with a violation, if at all. -/
theorem not_readsOutside_analyze
    {source : String}
    {tree : Node}
    (fits : tree.FitsSource source) :
    ¬ReadsOutside (analyze source tree) := by
  rintro ⟨span, failed⟩
  have outcome := failure?_analyze fits
  rw [failure?_eq_some_iff.mpr failed] at outcome
  obtain ⟨fault, -, same⟩ := Option.map_eq_some_iff.mp outcome.symm
  exact absurd same nofun

theorem not_readsOutside_compile
    {settings : Settings}
    {tree : Node}
    (fits : tree.FitsSource settings.source) :
    ¬ReadsOutside (compile settings tree) := by
  rintro ⟨span, failed⟩
  unfold compile at failed
  cases analyzed : analyze settings.source tree with
  | error failure =>
      rw [analyzed] at failed
      cases failed
      exact not_readsOutside_analyze fits ⟨span, analyzed⟩
  | ok analysis =>
      rw [analyzed] at failed
      exact not_readsOutside_generate (fits.flatten .ofAll) analysis ⟨span, failed⟩

/-! ## Sizes -/

namespace Node

/-- Flattening only removes nodes. -/
theorem size_flatten_le
    (flattening : Flattening)
    (node : Node) :
    (node.flatten flattening).size ≤ node.size := by
  rw [← length_tags, ← length_tags]
  exact (tags_flatten_sublist flattening node).length_le

end Node

/-! ## Bundles -/

/-- Nothing that is asked of the source while a tree is analyzed, flattened,
generated and compiled is undefined. -/
structure StaysWithin (settings : Settings) (tree : Node) : Prop where
  analyzed : ∀ passes, ¬ReadsOutside (analyze settings.source (tree.flattenBy passes))
  generated : ∀ passes analysis,
    ¬ReadsOutside (generate settings analysis (tree.flattenBy passes))
  compiled : ∀ passes, ¬ReadsOutside (compile settings (tree.flattenBy passes))
  /-- The number of nodes that flattening removes is not negative. -/
  counted : ∀ passes flattening,
    ((tree.flattenBy passes).flatten flattening).size ≤ (tree.flattenBy passes).size
  located : ∀ offset, Text.IsLocated settings.source offset
  /-- The name after a qualifier is a slice of the text of an identifier. -/
  qualified : ∀ chars, ∀ qualifier ∈ WrittenName.ancestorQualifiers, ∀ rest,
    WrittenName.afterQualifier? chars qualifier = some rest →
      Text.slice? (String.ofList chars)
        { start := Text.byteLength qualifier, next := Text.byteLength chars } =
          some (String.ofList rest)

theorem staysWithin_of_fitsSource
    {settings : Settings}
    {tree : Node}
    (fits : tree.FitsSource settings.source) :
    StaysWithin settings tree := by
  have stillFits (passes : List Flattening) : (tree.flattenBy passes).FitsSource settings.source :=
    Node.flattenBy_induction (fun pass _ kept => kept.flatten pass) passes fits
  exact {
    analyzed := fun passes => not_readsOutside_analyze (stillFits passes)
    generated := fun passes analysis => not_readsOutside_generate (stillFits passes) analysis
    compiled := fun passes => not_readsOutside_compile (stillFits passes)
    counted := fun passes flattening => Node.size_flatten_le flattening _
    located := Text.isLocated settings.source
    qualified := fun _ _ _ _ found => WrittenName.slice?_of_afterQualifier? found }

namespace Bundle

theorem fitsSource_iff
    {source : String}
    {tree : Node} :
    tree.FitsSource source ↔ ∀ node ∈ tree.preorder, Text.IsSlice source node.span := by
  simp only [Node.FitsSource, Node.tags, List.forall_mem_map, Text.fits_iff]
  rfl

/-- A bundle that is not accepted is rejected for its first bad span. -/
theorem exists_badSpan_of_ofText_eq_error
    {explain : String → ReaderComplaint}
    {text : String}
    {bundle : Bundle}
    {failure : Failure}
    (held : (Json.parse? text).bind ofJson? = some bundle)
    (rejected : ofText explain text = .error failure) :
    ∃ before node after, bundle.tree.preorder = before ++ node :: after ∧
      (∀ earlier ∈ before, Text.IsSlice bundle.source earlier.span) ∧
      ¬Text.IsSlice bundle.source node.span ∧
      failure.diagnostic.index? = some node.span.start := by
  simp only [ofText, held] at rejected
  split at rejected
  · next node bad =>
      obtain ⟨isBad, before, after, split, good⟩ := List.find?_eq_some_iff_append.mp bad
      refine ⟨before, node, after, split, fun earlier member => ?_, ?_, ?_⟩
      · have fits := good earlier member
        simpa [Text.fits_iff] using fits
      · rw [← Text.fits_iff]
        simpa using isBad
      · rw [← Except.error.inj rejected]
        rfl
  · exact absurd rejected nofun

/-- The loader accepts a bundle exactly if the text of every node can be sliced
out of the source, and otherwise names the start of the first node in preorder
whose text cannot.  Whatever numbers and memos the nodes of an accepted tree
have, and under any namespace, choice mode and time, nothing that the passes
ask of the source is undefined. -/
theorem accepted_bundles_stay_within_source
    (explain : String → ReaderComplaint)
    (text : String)
    (bundle : Bundle)
    (held : (Json.parse? text).bind ofJson? = some bundle) :
    (ofText explain text = .ok bundle ↔
      ∀ node ∈ bundle.tree.preorder, ∃ sliced, Text.slice? bundle.source node.span = some sliced) ∧
    (∀ span, (∃ sliced, Text.slice? bundle.source span = some sliced) ↔
      Text.IsSlice bundle.source span) ∧
    (∀ failure, ofText explain text = .error failure →
      ∃ before node after, bundle.tree.preorder = before ++ node :: after ∧
        (∀ earlier ∈ before, Text.IsSlice bundle.source earlier.span) ∧
        ¬Text.IsSlice bundle.source node.span ∧
        failure.diagnostic.index? = some node.span.start) ∧
    (ofText explain text = .ok bundle →
      ∀ namespaceName? mode time tree, bundle.tree.alike tree = true →
        StaysWithin { bundle.settings with namespaceName?, mode, time } tree) := by
  have sliced (span : Span) : (∃ sliced, Text.slice? bundle.source span = some sliced) ↔
      Text.IsSlice bundle.source span := Text.exists_slice?_iff
  refine ⟨?_, sliced, fun failure => exists_badSpan_of_ofText_eq_error held, ?_⟩
  · rw [ofText_eq_ok_iff, fitsSource_iff]
    simp only [sliced, held, true_and]
  · intro accepted namespaceName? mode time tree alike
    have fits := (ofText_eq_ok_iff.mp accepted).2
    apply staysWithin_of_fitsSource
    rw [← Node.fitsSource_bare_iff, ← Node.bare_eq_of_alike alike, Node.fitsSource_bare_iff]
    exact fits

/-- A bundle with a rule whose name is a character of two bytes. -/
def wideBundle : Bundle where
  file := "wide.g"
  source := "G<c, i> λ = λ;"
  tree := .file ⟨0, ⟨0, 16⟩, {}⟩ []
    [.grammar ⟨0, ⟨0, 16⟩, {}⟩
      (.declaration ⟨0, ⟨0, 7⟩, {}⟩
        (.genericName ⟨0, ⟨0, 7⟩, {}⟩ (.code ⟨0, ⟨0, 1⟩, {}⟩)
          [.code ⟨0, ⟨2, 3⟩, {}⟩, .code ⟨0, ⟨5, 6⟩, {}⟩]) none)
      [.rule ⟨0, ⟨8, 16⟩, {}⟩ false (.code ⟨0, ⟨8, 10⟩, {}⟩) none
        (.identifier ⟨0, ⟨13, 15⟩, {}⟩)]]

/-- The same source with nodes that split its wide character and leave it. -/
def splitBundle : Bundle where
  file := "wide.g"
  source := "G<c, i> λ = λ;"
  tree := .sequence ⟨0, ⟨0, 16⟩, {}⟩
    [.literal ⟨0, ⟨8, 10⟩, {}⟩, .literal ⟨0, ⟨9, 10⟩, {}⟩, .any ⟨0, ⟨0, 99⟩, {}⟩]

theorem wideBundle_stays_within_source :
    StaysWithin { wideBundle.settings with namespaceName? := some "N", mode := .strict, time := 7 }
      (wideBundle.tree.numbered 1) ∧
    ∃ failure, ofText (fun _ => default) splitBundle.toJson.text = .error failure ∧
      ∃ node ∈ splitBundle.tree.preorder, ¬Text.IsSlice splitBundle.source node.span ∧
        failure.diagnostic.index? = some node.span.start := by
  have heldWide : (Json.parse? wideBundle.toJson.text).bind ofJson? = some wideBundle := by
    rw [(isPlain_toJson (by decide)).parse?_text, Option.bind_some,
      ofJson?_toJson (by decide) (by decide)]
    rfl
  have heldSplit : (Json.parse? splitBundle.toJson.text).bind ofJson? = some splitBundle := by
    rw [(isPlain_toJson (by decide)).parse?_text, Option.bind_some,
      ofJson?_toJson (by decide) (by decide)]
    rfl
  constructor
  · have accepted : ofText (fun _ => default) wideBundle.toJson.text = .ok wideBundle :=
      ofText_eq_ok_iff.mpr ⟨heldWide, by decide⟩
    exact (accepted_bundles_stay_within_source _ _ wideBundle heldWide).2.2.2 accepted
      (some "N") .strict 7 _ (by decide)
  · cases outcome : ofText (fun _ => default) splitBundle.toJson.text with
    | ok loaded =>
        obtain ⟨held, fits⟩ := ofText_eq_ok_iff.mp outcome
        cases heldSplit.symm.trans held
        exact absurd fits (by decide)
    | error failure =>
        obtain ⟨before, node, after, split, -, bad, index⟩ :=
          (accepted_bundles_stay_within_source _ _ splitBundle heldSplit).2.2.1 failure outcome
        exact ⟨failure, rfl, node, by simp [split], bad, index⟩

end Bundle
end GrammarCompiler
