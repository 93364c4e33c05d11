import GrammarCompiler.Analysis.Definition
import GrammarCompiler.Proofs.SourceSlices
import GrammarCompiler.Proofs.TreeInduction

/-!
# Reading succeeds or fails as a whole

A list of texts is read if and only if each of them is, and then the result is
what each of them gives.  The names, occurrences and scopes of a definition are
stated here as total functions, which agree with what is read whenever all of
it can be read.
-/

namespace GrammarCompiler

/-! ## Steps that may fail -/

/-- A step that goes on after another succeeds if both do. -/
theorem bind_eq_ok
    {first : Except ε α}
    {next : α → Except ε β}
    {result : β} :
    first >>= next = .ok result ↔ ∃ value, first = .ok value ∧ next value = .ok result := by
  cases first with
  | error failure => exact ⟨nofun, fun ⟨_, absurdity, _⟩ => nomatch absurdity⟩
  | ok value =>
      constructor
      · intro succeeds
        exact ⟨value, rfl, succeeds⟩
      · rintro ⟨_, same, succeeds⟩
        cases same
        exact succeeds

theorem map_eq_ok
    {first : Except ε α}
    {change : α → β}
    {result : β} :
    first.map change = .ok result ↔ ∃ value, first = .ok value ∧ change value = result := by
  cases first with
  | error failure => exact ⟨nofun, fun ⟨_, absurdity, _⟩ => nomatch absurdity⟩
  | ok value =>
      constructor
      · intro succeeds
        exact ⟨value, rfl, Except.ok.inj succeeds⟩
      · rintro ⟨_, same, rfl⟩
        cases same
        rfl

/-- A step succeeds if something can be seen of its result. -/
theorem exists_eq_ok_of_toOption_map
    {step : Except ε α}
    {view : α → β}
    {seen : β}
    (looked : step.toOption.map view = some seen) :
    ∃ result, step = .ok result ∧ view result = seen := by
  cases step with
  | error failure => cases looked
  | ok result => exact ⟨result, rfl, Option.some.inj looked⟩

/-- A step for every member succeeds if and only if each of them does, and then
gives what a total function gives that agrees with the step. -/
theorem mapM_eq_ok_iff
    {step : α → Except ε β}
    {value : α → β}
    (agrees : ∀ input output, step input = .ok output → output = value input)
    {inputs : List α}
    {outputs : List β} :
    inputs.mapM step = .ok outputs ↔
      (∀ input ∈ inputs, ∃ output, step input = .ok output) ∧
        outputs = inputs.map value := by
  induction inputs generalizing outputs with
  | nil =>
      simp only [List.mapM_nil, List.not_mem_nil, false_implies, implies_true, true_and,
        List.map_nil]
      exact ⟨fun succeeds => (Except.ok.inj succeeds).symm, fun empty => by rw [empty]; rfl⟩
  | cons input inputs inductionHypothesis =>
      simp only [List.mapM_cons, bind_eq_ok, inductionHypothesis, List.forall_mem_cons,
        List.map_cons]
      constructor
      · rintro ⟨output, succeeds, _, ⟨others, rfl⟩, result⟩
        cases result
        rw [← agrees input output succeeds]
        exact ⟨⟨⟨output, succeeds⟩, others⟩, rfl⟩
      · rintro ⟨⟨⟨output, succeeds⟩, others⟩, rfl⟩
        rw [← agrees input output succeeds]
        exact ⟨output, succeeds, _, ⟨others, rfl⟩, rfl⟩

/-- If a step succeeds for every member, it succeeds for all of them
together. -/
theorem exists_mapM_eq_ok
    {step : α → Except ε β}
    {inputs : List α}
    (each : ∀ input ∈ inputs, ∃ output, step input = .ok output) :
    ∃ outputs, inputs.mapM step = .ok outputs := by
  induction inputs with
  | nil => exact ⟨[], rfl⟩
  | cons input inputs inductionHypothesis =>
      obtain ⟨⟨output, succeeds⟩, others⟩ := List.forall_mem_cons.mp each
      obtain ⟨outputs, rest⟩ := inductionHypothesis others
      refine ⟨output :: outputs, ?_⟩
      rw [List.mapM_cons, succeeds, rest]
      rfl

/-! ## Texts -/

namespace Tag

theorem read_eq_ok
    {source : String}
    {tag : Tag}
    {text : String} :
    tag.read source = .ok text ↔ tag.text? source = some text := by
  unfold read
  cases tag.text? source <;> simp

theorem readTrimmed_eq_ok
    {source : String}
    {tag : Tag}
    {name : String} :
    tag.readTrimmed source = .ok name ↔
      ∃ text, tag.text? source = some text ∧ Text.trim text = name := by
  simp only [readTrimmed, map_eq_ok, read_eq_ok]

/-- A text can be read under a tag whose span fits the source. -/
theorem exists_text_of_fits
    {source : String}
    {tag : Tag}
    (fits : Text.fits source tag.span = true) :
    ∃ text, tag.text? source = some text := by
  unfold text?
  cases tag.memo.text? with
  | some text => exact ⟨text, rfl⟩
  | none => exact Text.exists_slice?_iff.mpr (Text.fits_iff.mp fits)

/-- The text under a tag without blanks around it; empty if it cannot be
read. -/
def trimmedText (source : String) (tag : Tag) : String :=
  Text.trim ((tag.text? source).getD "")

theorem eq_trimmedText_of_readTrimmed
    {source : String}
    {tag : Tag}
    {name : String}
    (succeeds : tag.readTrimmed source = .ok name) :
    name = tag.trimmedText source := by
  obtain ⟨text, found, rfl⟩ := readTrimmed_eq_ok.mp succeeds
  simp [trimmedText, found]

end Tag

/-! ## Mentions -/

namespace Mention

/-- The text of a mention can be read. -/
def IsReadable (source : String) (mention : Mention) : Prop :=
  ∃ occurrence, mention.read source = .ok occurrence

theorem read_identifier_eq_ok
    {source : String}
    {tag : Tag}
    {occurrence : Occurrence} :
    (identifier tag).read source = .ok occurrence ↔
      ∃ text, tag.text? source = some text ∧
        Occurrence.identifier tag.id (.ofText text) = occurrence := by
  simp only [read, map_eq_ok, Tag.read_eq_ok]

theorem read_callee_eq_ok
    {source : String}
    {id : Nat}
    {name : Tag}
    {occurrence : Occurrence} :
    (callee id name).read source = .ok occurrence ↔
      ∃ text, name.text? source = some text ∧
        Occurrence.callee id (.ofText text) = occurrence := by
  simp only [read, map_eq_ok, Tag.read_eq_ok]

theorem read_argument_eq_ok
    {source : String}
    {tag : Tag}
    {occurrence : Occurrence} :
    (argument tag).read source = .ok occurrence ↔
      ∃ text, tag.text? source = some text ∧
        Occurrence.argument tag.id (Text.trim text) = occurrence := by
  simp only [read, map_eq_ok, Tag.readTrimmed_eq_ok]
  constructor
  · rintro ⟨_, ⟨text, found, rfl⟩, rfl⟩
    exact ⟨text, found, rfl⟩
  · rintro ⟨text, found, rfl⟩
    exact ⟨_, ⟨text, found, rfl⟩, rfl⟩

theorem read_binding_eq_ok
    {source : String}
    {captured : Tag}
    {occurrence : Occurrence} :
    (binding captured).read source = .ok occurrence ↔
      ∃ text, captured.text? source = some text ∧
        Occurrence.binding (Text.trim text) = occurrence := by
  simp only [read, map_eq_ok, Tag.readTrimmed_eq_ok]
  constructor
  · rintro ⟨_, ⟨text, found, rfl⟩, rfl⟩
    exact ⟨text, found, rfl⟩
  · rintro ⟨text, found, rfl⟩
    exact ⟨_, ⟨text, found, rfl⟩, rfl⟩

/-- If all mentions can be read, reading them gives all occurrences. -/
theorem mapM_read_eq_ok_iff
    {source : String}
    {mentions : List Mention}
    {occurrences : List Occurrence} :
    mentions.mapM (read source) = .ok occurrences ↔
      (∀ mention ∈ mentions, mention.IsReadable source) ∧
        occurrences = readable source mentions := by
  induction mentions generalizing occurrences with
  | nil =>
      simp only [List.mapM_nil, List.not_mem_nil, false_implies, implies_true, true_and,
        readable]
      exact ⟨fun succeeds => (Except.ok.inj succeeds).symm, fun empty => by rw [empty]; rfl⟩
  | cons mention mentions inductionHypothesis =>
      simp only [List.mapM_cons, bind_eq_ok, inductionHypothesis, List.forall_mem_cons]
      constructor
      · rintro ⟨occurrence, succeeds, _, ⟨others, rfl⟩, result⟩
        cases result
        refine ⟨⟨⟨occurrence, succeeds⟩, others⟩, ?_⟩
        simp [readable, succeeds]
      · rintro ⟨⟨⟨occurrence, succeeds⟩, others⟩, rfl⟩
        refine ⟨occurrence, succeeds, _, ⟨others, rfl⟩, ?_⟩
        simp [readable, succeeds, pure, Except.pure]

/-- The occurrences of mentions that can all be read are those of each of
them. -/
theorem mem_readable_iff
    {source : String}
    {mentions : List Mention}
    (allReadable : ∀ mention ∈ mentions, mention.IsReadable source)
    {occurrence : Occurrence} :
    occurrence ∈ readable source mentions ↔
      ∃ mention ∈ mentions, mention.read source = .ok occurrence := by
  induction mentions with
  | nil => simp [readable]
  | cons mention mentions inductionHypothesis =>
      obtain ⟨⟨first, succeeds⟩, others⟩ := List.forall_mem_cons.mp allReadable
      simp only [readable, succeeds, List.mem_cons, inductionHypothesis others,
        exists_eq_or_imp, Except.ok.injEq]
      exact or_congr_left eq_comm

/-- Mentions that can all be read do not hide those after them. -/
theorem readable_append
    {source : String}
    {left : List Mention}
    (leftReadable : ∀ mention ∈ left, mention.IsReadable source)
    (right : List Mention) :
    readable source (left ++ right) = readable source left ++ readable source right := by
  induction left with
  | nil => rfl
  | cons mention left inductionHypothesis =>
      obtain ⟨⟨first, succeeds⟩, others⟩ := List.forall_mem_cons.mp leftReadable
      simp only [List.cons_append, readable, succeeds, inductionHypothesis others]

end Mention

/-! ## Definitions -/

namespace Definition

/-- The name of a definition and all that it mentions can be read. -/
structure IsReadable (source : String) (definition : Definition) : Prop where
  name : ∃ name, definition.name.readTrimmed source = .ok name
  mentions : ∀ mention ∈ definition.mentions, mention.IsReadable source

/-- The rule that is defined. -/
def ruleName (source : String) (definition : Definition) : String :=
  definition.name.trimmedText source

/-- What occurs in a definition. -/
def occurrences (source : String) (definition : Definition) : List Occurrence :=
  Mention.readable source definition.mentions

/-- What occurs in a definition that can be read is what its mentions give. -/
theorem exists_occurrence_iff
    {source : String}
    {definition : Definition}
    (readable : ∀ mention ∈ definition.mentions, mention.IsReadable source)
    {holds : Occurrence → Prop} :
    (∃ occurrence ∈ definition.occurrences source, holds occurrence) ↔
      ∃ mention ∈ definition.mentions,
        ∃ occurrence, mention.read source = .ok occurrence ∧ holds occurrence := by
  simp only [occurrences, Mention.mem_readable_iff readable]
  constructor
  · rintro ⟨occurrence, ⟨mention, isMention, read⟩, satisfied⟩
    exact ⟨mention, isMention, occurrence, read, satisfied⟩
  · rintro ⟨mention, isMention, occurrence, read, satisfied⟩
    exact ⟨occurrence, ⟨mention, isMention, read⟩, satisfied⟩

/-- The scope of what occurs in a definition. -/
def occurrenceScope (source : String) (definition : Definition) : Scope :=
  .ofOccurrences (definition.occurrences source)

theorem scope_eq_ok_iff
    {source : String}
    {definition : Definition}
    {scope : Scope} :
    definition.scope source = .ok scope ↔
      (∀ mention ∈ definition.mentions, mention.IsReadable source) ∧
        scope = definition.occurrenceScope source := by
  simp only [Definition.scope, map_eq_ok, Mention.mapM_read_eq_ok_iff]
  constructor
  · rintro ⟨_, ⟨readable, rfl⟩, rfl⟩
    exact ⟨readable, rfl⟩
  · rintro ⟨readable, rfl⟩
    exact ⟨_, ⟨readable, rfl⟩, rfl⟩

/-- The occurrences in definitions that can be read, one definition after the
other. -/
theorem readable_flatMap_mentions
    {source : String}
    {definitions : List Definition}
    (allReadable : ∀ definition ∈ definitions,
      ∀ mention ∈ definition.mentions, mention.IsReadable source) :
    Mention.readable source (definitions.flatMap (·.mentions)) =
      definitions.flatMap (·.occurrences source) := by
  induction definitions with
  | nil => rfl
  | cons definition definitions inductionHypothesis =>
      obtain ⟨first, others⟩ := List.forall_mem_cons.mp allReadable
      rw [List.flatMap_cons, Mention.readable_append first, inductionHypothesis others]
      rfl

end Definition
end GrammarCompiler
