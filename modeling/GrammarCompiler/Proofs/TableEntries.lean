import GrammarCompiler.Proofs.DistinctNumbers

/-!
# Entries of the tables of an analysis

The tables of a successful analysis hold an entry for every identifier, call and
argument that a definition of the file mentions, and no other.  If the nodes of
the tree have distinct numbers, looking a number up gives the entry of its
mention.
-/

namespace GrammarCompiler

namespace Occurrence

/-- The entry of an identifier or a call in the table of resolutions. -/
def resolution? (ruleNames : NameSet) : Occurrence → Option (Nat × Resolution)
  | .identifier id name => some (id, Analysis.resolveIdentifier ruleNames name)
  | .callee id name => some (id, Analysis.resolveCallee name)
  | _ => none

/-- The entry of an argument in the table of arguments. -/
def argumentKind?
    (ruleNames : NameSet)
    (scope : Scope) : Occurrence → Option (Nat × ArgumentKind)
  | .argument id text => some (id, Analysis.argumentKind ruleNames scope text)
  | _ => none

end Occurrence

namespace Scope

/-- The classified names of a scope are those of its occurrences. -/
theorem mem_resolutions_ofOccurrences_iff
    {occurrences : List Occurrence}
    {ruleNames : NameSet}
    {entry : Nat × Resolution} :
    entry ∈ (ofOccurrences occurrences).resolutions ruleNames ↔
      ∃ occurrence ∈ occurrences, occurrence.resolution? ruleNames = some entry := by
  rw [ofOccurrences_eq]
  simp only [resolutions, List.mem_append, List.mem_map, List.mem_filterMap]
  constructor
  · rintro (⟨_, ⟨occurrence, member, found⟩, rfl⟩ | ⟨_, ⟨occurrence, member, found⟩, rfl⟩)
    · cases occurrence <;> cases found
      exact ⟨_, member, rfl⟩
    · cases occurrence <;> cases found
      exact ⟨_, member, rfl⟩
  · rintro ⟨occurrence, member, found⟩
    cases occurrence with
    | identifier id name =>
        cases found
        exact .inl ⟨(id, name), ⟨_, member, rfl⟩, rfl⟩
    | callee id name =>
        cases found
        exact .inr ⟨(id, name), ⟨_, member, rfl⟩, rfl⟩
    | _ => cases found

/-- The classified arguments of a scope are those of its occurrences. -/
theorem mem_argumentKinds_ofOccurrences_iff
    {occurrences : List Occurrence}
    {ruleNames : NameSet}
    {entry : Nat × ArgumentKind} :
    entry ∈ (ofOccurrences occurrences).argumentKinds ruleNames ↔
      ∃ occurrence ∈ occurrences,
        occurrence.argumentKind? ruleNames (ofOccurrences occurrences) = some entry := by
  have parts : (ofOccurrences occurrences).arguments =
      occurrences.filterMap Occurrence.argument? := by
    rw [ofOccurrences_eq]
  simp only [argumentKinds, parts, List.mem_map, List.mem_filterMap]
  constructor
  · rintro ⟨_, ⟨occurrence, member, found⟩, rfl⟩
    cases occurrence <;> cases found
    exact ⟨_, member, rfl⟩
  · rintro ⟨occurrence, member, found⟩
    cases occurrence with
    | argument id text =>
        cases found
        exact ⟨(id, text), ⟨_, member, rfl⟩, rfl⟩
    | _ => cases found

end Scope

namespace Mention

/-- A mention has an entry in the table of resolutions if it is an identifier or
a call. -/
theorem resolvedId?_eq_some_iff
    {source : String}
    {mention : Mention}
    {occurrence : Occurrence}
    (read : mention.read source = .ok occurrence)
    (ruleNames : NameSet)
    {id : Nat} :
    mention.resolvedId? = some id ↔
      ∃ resolution, occurrence.resolution? ruleNames = some (id, resolution) := by
  cases mention with
  | identifier tag =>
      obtain ⟨text, _, rfl⟩ := read_identifier_eq_ok.mp read
      simp [resolvedId?, Occurrence.resolution?]
  | callee callId name =>
      obtain ⟨text, _, rfl⟩ := read_callee_eq_ok.mp read
      simp [resolvedId?, Occurrence.resolution?]
  | argument tag =>
      obtain ⟨text, _, rfl⟩ := read_argument_eq_ok.mp read
      simp [resolvedId?, Occurrence.resolution?]
  | binding captured =>
      obtain ⟨text, _, rfl⟩ := read_binding_eq_ok.mp read
      simp [resolvedId?, Occurrence.resolution?]
  | misplaced kind tag => cases read

/-- A mention has an entry in the table of arguments if it is an argument. -/
theorem argumentId?_eq_some_iff
    {source : String}
    {mention : Mention}
    {occurrence : Occurrence}
    (read : mention.read source = .ok occurrence)
    (ruleNames : NameSet)
    (scope : Scope)
    {id : Nat} :
    mention.argumentId? = some id ↔
      ∃ kind, occurrence.argumentKind? ruleNames scope = some (id, kind) := by
  cases mention with
  | identifier tag =>
      obtain ⟨text, _, rfl⟩ := read_identifier_eq_ok.mp read
      simp [argumentId?, Occurrence.argumentKind?]
  | callee callId name =>
      obtain ⟨text, _, rfl⟩ := read_callee_eq_ok.mp read
      simp [argumentId?, Occurrence.argumentKind?]
  | argument tag =>
      obtain ⟨text, _, rfl⟩ := read_argument_eq_ok.mp read
      simp [argumentId?, Occurrence.argumentKind?]
  | binding captured =>
      obtain ⟨text, _, rfl⟩ := read_binding_eq_ok.mp read
      simp [argumentId?, Occurrence.argumentKind?]
  | misplaced kind tag => cases read

end Mention

namespace Analysis

/-! ## Looking numbers up -/

/-- A number has an entry if a value is entered for it. -/
theorem exists_lastEntry_iff
    {entries : List (Nat × α)}
    {id : Nat} :
    (∃ value, lastEntry? entries id = some value) ↔ ∃ value, (id, value) ∈ entries := by
  rw [← Option.isSome_iff_exists, lastEntry?, List.lookup_isSome_iff]
  simp

theorem mem_of_lastEntry_eq_some
    {entries : List (Nat × α)}
    {id : Nat}
    {value : α}
    (found : lastEntry? entries id = some value) :
    (id, value) ∈ entries := by
  obtain ⟨before, after, split, _⟩ := List.lookup_eq_some_iff.mp found
  rw [← List.mem_reverse, split]
  simp

/-- Looking a number up gives its value, if it has one value only. -/
theorem lastEntry_eq_some_of_mem
    {entries : List (Nat × α)}
    {id : Nat}
    {value : α}
    (member : (id, value) ∈ entries)
    (single : ∀ other, (id, other) ∈ entries → other = value) :
    lastEntry? entries id = some value := by
  obtain ⟨found, isFound⟩ := exists_lastEntry_iff.mpr ⟨value, member⟩
  rw [isFound, single found (mem_of_lastEntry_eq_some isFound)]

/-! ## Tables of what definitions mention -/

/-- A table holds what is recorded for the mentions in the definitions of a file,
each under its number, and nothing else. -/
structure RecordsMentions
    (source : String)
    (tree : Node)
    (number? : Mention → Option Nat)
    (record? : Definition → Occurrence → Option (Nat × α))
    (entries : List (Nat × α)) : Prop where
  readable : ∀ definition ∈ tree.fileDefinitions,
    ∀ mention ∈ definition.mentions, mention.IsReadable source
  numbered : ∀ definition mention occurrence, mention.read source = .ok occurrence →
    ∀ id, number? mention = some id ↔ ∃ value, record? definition occurrence = some (id, value)
  mem_iff : ∀ entry, entry ∈ entries ↔
    ∃ definition ∈ tree.fileDefinitions, ∃ mention ∈ definition.mentions,
      ∃ occurrence, mention.read source = .ok occurrence ∧
        record? definition occurrence = some entry

namespace RecordsMentions

variable {source : String} {tree : Node} {number? : Mention → Option Nat}
variable {record? : Definition → Occurrence → Option (Nat × α)} {entries : List (Nat × α)}

/-- A number is known if a definition mentions it. -/
theorem exists_lastEntry_iff_mentioned
    (records : RecordsMentions source tree number? record? entries)
    {id : Nat} :
    (∃ value, lastEntry? entries id = some value) ↔
      ∃ definition ∈ tree.fileDefinitions, ∃ mention ∈ definition.mentions,
        number? mention = some id := by
  rw [exists_lastEntry_iff]
  constructor
  · rintro ⟨value, member⟩
    obtain ⟨definition, isDefinition, mention, isMention, occurrence, read, recorded⟩ :=
      (records.mem_iff _).mp member
    have numbered := (records.numbered definition mention occurrence read id).mpr ⟨value, recorded⟩
    exact ⟨definition, isDefinition, mention, isMention, numbered⟩
  · rintro ⟨definition, isDefinition, mention, isMention, numbered⟩
    obtain ⟨occurrence, read⟩ := records.readable definition isDefinition mention isMention
    obtain ⟨value, recorded⟩ :=
      (records.numbered definition mention occurrence read id).mp numbered
    refine ⟨value, (records.mem_iff _).mpr ?_⟩
    exact ⟨definition, isDefinition, mention, isMention, occurrence, read, recorded⟩

/-- In a tree with distinct numbers, the number of a mention gives what is
recorded for it. -/
theorem lastEntry_eq_some
    (records : RecordsMentions source tree number? record? entries)
    (ofMentions : ∀ node : Node, (node.mentions.filterMap number?).Sublist node.ids)
    (distinct : tree.DistinctIds)
    {definition : Definition}
    (isDefinition : definition ∈ tree.fileDefinitions)
    {mention : Mention}
    (isMention : mention ∈ definition.mentions)
    {occurrence : Occurrence}
    (read : mention.read source = .ok occurrence)
    {id : Nat}
    {value : α}
    (recorded : record? definition occurrence = some (id, value)) :
    lastEntry? entries id = some value := by
  apply lastEntry_eq_some_of_mem
  · exact (records.mem_iff _).mpr
      ⟨definition, isDefinition, mention, isMention, occurrence, read, recorded⟩
  · intro other member
    obtain ⟨definition', isDefinition', mention', isMention', occurrence', read', recorded'⟩ :=
      (records.mem_iff _).mp member
    have numbered := (records.numbered definition mention occurrence read id).mpr ⟨_, recorded⟩
    have numbered' :=
      (records.numbered definition' mention' occurrence' read' id).mpr ⟨_, recorded'⟩
    obtain ⟨sameDefinition, sameMention⟩ := distinct.mention_unique ofMentions
      isDefinition' isDefinition isMention' isMention numbered' numbered
    subst sameDefinition sameMention
    rw [read, Except.ok.injEq] at read'
    rw [← read', recorded, Option.some.injEq, Prod.mk.injEq] at recorded'
    exact recorded'.2.symm

/-- The number of an entry has one in the table of any other file with the same
definitions, too: what is recorded there for the same occurrence. -/
theorem exists_record_of_lastEntry
    (records : RecordsMentions source tree number? record? entries)
    {tree' : Node}
    {record?' : Definition → Occurrence → Option (Nat × α)}
    {entries' : List (Nat × α)}
    (records' : RecordsMentions source tree' number? record?' entries')
    (ofMentions : ∀ node : Node, (node.mentions.filterMap number?).Sublist node.ids)
    (distinct' : tree'.DistinctIds)
    (kept : tree.fileDefinitions ⊆ tree'.fileDefinitions)
    {id : Nat}
    {value : α}
    (found : lastEntry? entries id = some value) :
    ∃ definition occurrence, record? definition occurrence = some (id, value) ∧
      ∀ value', record?' definition occurrence = some (id, value') →
        lastEntry? entries' id = some value' := by
  obtain ⟨definition, isDefinition, mention, isMention, occurrence, read, recorded⟩ :=
    (records.mem_iff _).mp (mem_of_lastEntry_eq_some found)
  refine ⟨definition, occurrence, recorded, fun value' recorded' => ?_⟩
  exact records'.lastEntry_eq_some ofMentions distinct' (kept isDefinition) isMention read recorded'

end RecordsMentions

section

variable {source : String} {tree : Node} {analysis : Analysis}

theorem resolutions_recordsMentions
    (analyzed : analyze source tree = .ok analysis) :
    RecordsMentions source tree Mention.resolvedId?
      (fun _ => Occurrence.resolution? analysis.ruleNames) analysis.resolutions where
  readable _ isDefinition := (isReadable_of_mem_fileDefinitions analyzed isDefinition).mentions
  numbered _ _ _ read _ := Mention.resolvedId?_eq_some_iff read analysis.ruleNames
  mem_iff entry := by
    rw [mem_resolutions_iff analyzed]
    refine exists_congr fun definition => and_congr_right fun isDefinition => ?_
    have readable := (isReadable_of_mem_fileDefinitions analyzed isDefinition).mentions
    rw [Definition.occurrenceScope, Scope.mem_resolutions_ofOccurrences_iff]
    exact Definition.exists_occurrence_iff readable

theorem arguments_recordsMentions
    (analyzed : analyze source tree = .ok analysis) :
    RecordsMentions source tree Mention.argumentId?
      (fun definition =>
        Occurrence.argumentKind? analysis.ruleNames (definition.occurrenceScope source))
      analysis.arguments where
  readable _ isDefinition := (isReadable_of_mem_fileDefinitions analyzed isDefinition).mentions
  numbered _ _ _ read _ := Mention.argumentId?_eq_some_iff read analysis.ruleNames _
  mem_iff entry := by
    rw [mem_arguments_iff analyzed]
    refine exists_congr fun definition => and_congr_right fun isDefinition => ?_
    have readable := (isReadable_of_mem_fileDefinitions analyzed isDefinition).mentions
    rw [Definition.occurrenceScope, Scope.mem_argumentKinds_ofOccurrences_iff]
    exact Definition.exists_occurrence_iff readable

/-- Identifiers and calls that the definitions of the file mention are resolved,
and nothing else is. -/
theorem exists_resolution_iff
    (analyzed : analyze source tree = .ok analysis)
    {id : Nat} :
    (∃ resolution, analysis.resolution? id = some resolution) ↔
      ∃ definition ∈ tree.fileDefinitions, ∃ mention ∈ definition.mentions,
        mention.resolvedId? = some id :=
  (resolutions_recordsMentions analyzed).exists_lastEntry_iff_mentioned

/-- Arguments that the definitions of the file mention are classified, and
nothing else is. -/
theorem exists_argument_iff
    (analyzed : analyze source tree = .ok analysis)
    {id : Nat} :
    (∃ kind, analysis.argument? id = some kind) ↔
      ∃ definition ∈ tree.fileDefinitions, ∃ mention ∈ definition.mentions,
        mention.argumentId? = some id :=
  (arguments_recordsMentions analyzed).exists_lastEntry_iff_mentioned

end

end Analysis
end GrammarCompiler
