import GrammarCompiler.Analysis.Analyzer

/-!
# Analysis reports no breach

A breach says that passes are put together wrongly, which only synthesis can
notice.  Analysis fails because of the tree or the source alone.
-/

namespace GrammarCompiler

/-- Whenever a step fails, it fails in an allowed way. -/
def FailsOnly (allowed : Failure → Prop) (step : Except Failure α) : Prop :=
  ∀ failure, step = .error failure → allowed failure

namespace FailsOnly

variable {allowed : Failure → Prop}

theorem of_ok
    {step : Except Failure α}
    {value : α}
    (succeeds : step = .ok value) :
    FailsOnly allowed step := by
  intro failure failed
  rw [succeeds] at failed
  exact absurd failed nofun

theorem ok (value : α) : FailsOnly allowed (.ok value) :=
  of_ok rfl

theorem error
    {failure : Failure}
    (isAllowed : allowed failure) :
    FailsOnly allowed (.error failure : Except Failure α) := by
  intro other same
  exact Except.error.inj same ▸ isAllowed

theorem bind
    {first : Except Failure α}
    {next : α → Except Failure β}
    (ofFirst : FailsOnly allowed first)
    (ofNext : ∀ value, FailsOnly allowed (next value)) :
    FailsOnly allowed (first >>= next) := by
  cases first with
  | error failure => exact error (ofFirst failure rfl)
  | ok value => exact ofNext value

theorem map
    {first : Except Failure α}
    (ofFirst : FailsOnly allowed first)
    (change : α → β) :
    FailsOnly allowed (first.map change) := by
  cases first with
  | error failure => exact error (ofFirst failure rfl)
  | ok value => exact ok (change value)

/-- Steps for all members fail in an allowed way if each of them does. -/
theorem mapM
    {step : α → Except Failure β}
    {inputs : List α}
    (each : ∀ input ∈ inputs, FailsOnly allowed (step input)) :
    FailsOnly allowed (inputs.mapM step) := by
  induction inputs with
  | nil => exact ok []
  | cons input inputs inductionHypothesis =>
      obtain ⟨ofInput, ofOthers⟩ := List.forall_mem_cons.mp each
      rw [List.mapM_cons]
      exact bind ofInput fun output => bind (inductionHypothesis ofOthers) fun outputs => ok _

end FailsOnly

/-- A step does not fail with a breach. -/
def NoBreach (step : Except Failure α) : Prop :=
  ∀ cause, step ≠ .error (.breach cause)

theorem noBreach_iff
    {step : Except Failure α} :
    NoBreach step ↔ FailsOnly (fun failure => ∀ cause, failure ≠ .breach cause) step := by
  constructor
  · rintro noBreach failure failed cause rfl
    exact noBreach cause failed
  · intro onlyOthers cause failed
    exact onlyOthers _ failed cause rfl

namespace NoBreach

theorem ok (value : α) : NoBreach (.ok value) :=
  nofun

/-- A failure that is passed on is no breach if it was none before. -/
theorem error
    {first : Except Failure α}
    (ofFirst : NoBreach first)
    {failure : Failure}
    (failed : first = .error failure) :
    NoBreach (.error failure : Except Failure β) :=
  noBreach_iff.mpr (.error (noBreach_iff.mp ofFirst failure failed))

theorem bind
    {first : Except Failure α}
    {next : α → Except Failure β}
    (ofFirst : NoBreach first)
    (ofNext : ∀ value, NoBreach (next value)) :
    NoBreach (first >>= next) :=
  noBreach_iff.mpr (.bind (noBreach_iff.mp ofFirst) fun value => noBreach_iff.mp (ofNext value))

theorem map
    {first : Except Failure α}
    (ofFirst : NoBreach first)
    (change : α → β) :
    NoBreach (first.map change) :=
  noBreach_iff.mpr (.map (noBreach_iff.mp ofFirst) change)

/-- Steps for all members do not fail with a breach if none of them does. -/
theorem mapM
    {step : α → Except Failure β}
    (each : ∀ input, NoBreach (step input))
    (inputs : List α) :
    NoBreach (inputs.mapM step) :=
  noBreach_iff.mpr (.mapM fun input _ => noBreach_iff.mp (each input))

end NoBreach

/-! ## Reading -/

theorem Tag.noBreach_read
    (source : String)
    (tag : Tag) :
    NoBreach (tag.read source) := by
  intro cause
  unfold Tag.read
  cases tag.text? source <;> nofun

theorem Tag.noBreach_readTrimmed
    (source : String)
    (tag : Tag) :
    NoBreach (tag.readTrimmed source) :=
  (tag.noBreach_read source).map _

theorem Mention.noBreach_read
    (source : String)
    (mention : Mention) :
    NoBreach (mention.read source) := by
  cases mention with
  | identifier tag => exact (tag.noBreach_read source).map _
  | callee id name => exact (name.noBreach_read source).map _
  | argument tag => exact (tag.noBreach_readTrimmed source).map _
  | binding captured => exact (captured.noBreach_readTrimmed source).map _
  | misplaced kind tag => nofun

/-! ## Declarations -/

namespace Declaration

theorem noBreach_nameAndTypes
    (source : String)
    (node : Node) :
    NoBreach (nameAndTypes source node) := by
  unfold nameAndTypes
  split
  · next name input result =>
      refine (input.tag.noBreach_readTrimmed source).bind fun _ => ?_
      refine (result.tag.noBreach_readTrimmed source).bind fun _ => ?_
      exact (name.tag.noBreach_readTrimmed source).bind fun _ => .ok _
  · exact (Tag.noBreach_readTrimmed source _).bind fun _ => .ok _
  · exact (Tag.noBreach_readTrimmed source _).bind fun _ => .ok _

theorem noBreach_typesOf
    (source : String)
    (own? : Option (String × String))
    (base? : Option Node) :
    NoBreach (typesOf source own? base?) := by
  unfold typesOf
  split
  · exact .ok _
  · exact (noBreach_nameAndTypes source _).map _
  · exact .ok _

theorem noBreach_baseOf
    (source inputType resultType : String)
    (base? : Option Node) :
    NoBreach (baseOf source inputType resultType base?) := by
  cases base? with
  | none => exact .ok _
  | some base => exact base.tag.noBreach_readTrimmed source

theorem noBreach_ofNode
    (source : String)
    (node : Node) :
    NoBreach (ofNode source node) := by
  cases node with
  | declaration tag nameNode base? =>
      refine (noBreach_nameAndTypes source nameNode).bind fun (name, own?) => ?_
      refine (noBreach_typesOf source own? base?).bind fun types? => ?_
      cases types? with
      | none => nofun
      | some types => exact (noBreach_baseOf source types.1 types.2 base?).bind fun _ => .ok _
  | _ => nofun

end Declaration

/-! ## Walks -/

namespace Analyzer

theorem noBreach_importedBy
    (source : String)
    (nodes : List Node) :
    NoBreach (importedBy source nodes) := by
  induction nodes with
  | nil => exact .ok _
  | cons node nodes inductionHypothesis =>
      cases node with
      | usingDirective tag target =>
          refine (target.tag.noBreach_readTrimmed source).bind fun _ => ?_
          exact inductionHypothesis.bind fun _ => .ok _
      | _ => exact inductionHypothesis

theorem noBreach_definitionNames
    (source : String)
    (definitions : List Definition) :
    NoBreach (definitionNames source definitions) :=
  .mapM (fun definition => definition.name.noBreach_readTrimmed source) definitions

theorem noBreach_ruleTable
    (source : String)
    (definitions : List Definition)
    (names : List String) :
    NoBreach (ruleTable source definitions names) := by
  refine NoBreach.bind (.mapM (fun definition => ?_) definitions) fun _ => .ok _
  exact (NoBreach.mapM (Mention.noBreach_read source) definition.mentions).map _

theorem noBreach_walkGrammar
    (source : String)
    (known : NameSet)
    (node : Node) :
    NoBreach (walkGrammar source known node).2 := by
  cases node with
  | grammar tag header body =>
      simp only [walkGrammar]
      split
      · next failure failed => exact (Declaration.noBreach_ofNode source header).error failed
      · next declaration _ =>
          split
          · next failure failed => exact (noBreach_definitionNames source _).error failed
          · exact (noBreach_ruleTable source _ _).map _
  | _ => nofun

/-- The walk of grammars reports no breach, whichever of them it stops at. -/
theorem walkGrammars_ne_breach
    (source : String)
    (analyzer : Analyzer)
    (nodes : List Node)
    (cause : Breach) :
    (walkGrammars source analyzer nodes).2 ≠ some (.breach cause) := by
  induction nodes generalizing analyzer with
  | nil => nofun
  | cons node nodes inductionHypothesis =>
      have ofNode := noBreach_walkGrammar source analyzer.ruleNames node
      unfold walkGrammars
      split
      · exact inductionHypothesis _
      · next ruleNames failure walked =>
          rw [walked] at ofNode
          intro failed
          exact ofNode cause (congrArg Except.error (Option.some.inj failed))

theorem analyze_ne_breach
    (source : String)
    (analyzer : Analyzer)
    (tree : Node)
    (cause : Breach) :
    (analyzer.analyze source tree).2 ≠ some (.breach cause) := by
  cases tree with
  | file tag preamble grammars =>
      simp only [analyze]
      split
      · next failure failed =>
          intro same
          rw [Option.some.inj same] at failed
          exact noBreach_importedBy source preamble cause failed
      · exact walkGrammars_ne_breach source _ grammars cause
  | _ => nofun

end Analyzer

/-- Analysis reports no breach. -/
theorem noBreach_analyze
    (source : String)
    (tree : Node) :
    NoBreach (analyze source tree) := by
  intro cause
  have ofTree := Analyzer.analyze_ne_breach source {} tree cause
  unfold analyze
  split
  · nofun
  · next failure failed =>
      rw [failed] at ofTree
      exact fun same => ofTree (congrArg some (Except.error.inj same))

end GrammarCompiler
