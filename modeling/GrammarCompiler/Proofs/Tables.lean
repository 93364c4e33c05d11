import GrammarCompiler.Analysis.RuleTable
import Mathlib.Data.List.Induction
import Mathlib.Data.List.Nodup

/-!
# Contents of scopes and rule tables

Scopes and rule tables are built entry by entry.  Here they are described at
once: every part of a scope is a selection from the occurrences, and a rule
table holds one set per name, in the order of first definitions, with all
definitions of that name in their order.
-/

namespace GrammarCompiler

namespace NameSet

theorem insertAll_append
    (names : NameSet)
    (first second : List String) :
    names.insertAll (first ++ second) = (names.insertAll first).insertAll second :=
  List.foldl_append

theorem toList_insert
    (names : NameSet)
    (name : String) :
    (names.insert name).toList =
      if name ∈ names.toList then names.toList else names.toList ++ [name] := by
  unfold insert
  split <;> rfl

theorem ofList_append_singleton
    (names : List String)
    (name : String) :
    ofList (names ++ [name]) = (ofList names).insert name := by
  rw [ofList, insertAll_append]
  rfl

end NameSet

/-! ## First-seen order -/

/-- Names are listed in the order in which they first occur. -/
def InFirstSeenOrder (names occurrences : List String) : Prop :=
  names.Pairwise fun earlier later => occurrences.idxOf earlier < occurrences.idxOf later

theorem InFirstSeenOrder.sublist
    {names part occurrences : List String}
    (ordered : InFirstSeenOrder names occurrences)
    (isPart : part.Sublist names) :
    InFirstSeenOrder part occurrences :=
  List.Pairwise.sublist isPart ordered

namespace Occurrence

/-- An identifier with its number. -/
def identifier? : Occurrence → Option (Nat × WrittenName)
  | .identifier id name => some (id, name)
  | _ => none

/-- The name of a call with the number of the call. -/
def callee? : Occurrence → Option (Nat × WrittenName)
  | .callee id name => some (id, name)
  | _ => none

/-- An argument with its number. -/
def argument? : Occurrence → Option (Nat × String)
  | .argument id text => some (id, text)
  | _ => none

/-- A name that may need a variable: a bare identifier or a bound name. -/
def localName? : Occurrence → Option String
  | .identifier _ (.bare name) => some name
  | .binding name => some name
  | _ => none

/-- A bound name. -/
def bound? : Occurrence → Option String
  | .binding name => some name
  | _ => none

end Occurrence

namespace Scope

/-- What recording occurrences adds to a scope. -/
theorem foldl_record
    (occurrences : List Occurrence)
    (scope : Scope) :
    occurrences.foldl record scope =
      { names := scope.names.insertAll (occurrences.filterMap Occurrence.localName?)
        bound := scope.bound.insertAll (occurrences.filterMap Occurrence.bound?)
        slots := scope.slots
        identifiers := scope.identifiers ++ occurrences.filterMap Occurrence.identifier?
        callees := scope.callees ++ occurrences.filterMap Occurrence.callee?
        arguments := scope.arguments ++ occurrences.filterMap Occurrence.argument? } := by
  induction occurrences generalizing scope with
  | nil => simp [NameSet.insertAll]
  | cons occurrence occurrences inductionHypothesis =>
      rw [List.foldl_cons, inductionHypothesis]
      cases occurrence with
      | identifier id name =>
          cases name <;>
            simp [record, addReference, NameSet.insertAll, List.filterMap_cons,
              Occurrence.localName?, Occurrence.bound?, Occurrence.identifier?,
              Occurrence.callee?, Occurrence.argument?]
      | callee id name | argument id text | binding name =>
          simp [record, addBinding, NameSet.insertAll, List.filterMap_cons,
            Occurrence.localName?, Occurrence.bound?, Occurrence.identifier?,
            Occurrence.callee?, Occurrence.argument?]

/-- The scope of occurrences, part by part. -/
theorem ofOccurrences_eq (occurrences : List Occurrence) :
    ofOccurrences occurrences =
      { names := .ofList (occurrences.filterMap Occurrence.localName?)
        bound := .ofList (occurrences.filterMap Occurrence.bound?)
        slots := []
        identifiers := occurrences.filterMap Occurrence.identifier?
        callees := occurrences.filterMap Occurrence.callee?
        arguments := occurrences.filterMap Occurrence.argument? } := by
  rw [ofOccurrences, foldl_record]
  simp [NameSet.ofList]

end Scope

/-! ## Rule tables -/

namespace AlternativeSet

/-- The same set with one more definition at its end. -/
def extended (set : AlternativeSet) (alternative : Alternative) : AlternativeSet :=
  { set with alternatives := set.alternatives ++ [alternative] }

end AlternativeSet

namespace RuleTable

/-- Adding a definition to the sets, as a choice at the first of them. -/
theorem addTo_cons
    (name : String)
    (alternative : Alternative)
    (set : AlternativeSet)
    (sets : List AlternativeSet) :
    addTo name alternative (set :: sets) =
      if set.name = name then set.extended alternative :: sets
      else set :: addTo name alternative sets := rfl

/-- The definitions of one name among named definitions. -/
def groupOf
    (named : List (String × Alternative))
    (name : String) : AlternativeSet where
  name := name
  alternatives := (named.filter (·.1 = name)).map (·.2)

theorem groupOf_append_singleton
    (named : List (String × Alternative))
    (added : String × Alternative)
    (name : String) :
    groupOf (named ++ [added]) name =
      if name = added.1 then (groupOf named name).extended added.2
      else groupOf named name := by
  by_cases same : name = added.1
  · simp [groupOf, AlternativeSet.extended, same]
  · simp [groupOf, same, Ne.symm same]

/-- A definition of a name that has a set goes to the end of that set. -/
theorem addTo_map_of_mem
    {group : String → AlternativeSet}
    (named : ∀ name, (group name).name = name)
    (alternative : Alternative)
    {name : String}
    {names : List String}
    (distinct : names.Nodup)
    (present : name ∈ names) :
    addTo name alternative (names.map group) =
      names.map fun other =>
        if other = name then (group other).extended alternative else group other := by
  induction names with
  | nil => cases present
  | cons first names inductionHypothesis =>
      obtain ⟨firstAbsent, restDistinct⟩ := List.nodup_cons.mp distinct
      rw [List.map_cons, List.map_cons, addTo_cons, named]
      by_cases same : first = name
      · subst same
        have unchanged : ∀ other ∈ names, group other =
            if other = first then (group other).extended alternative else group other := by
          intro other member
          rw [if_neg]
          rintro rfl
          exact firstAbsent member
        rw [if_pos rfl, if_pos rfl, ← List.map_congr_left unchanged]
      · have presentLater : name ∈ names :=
          (List.mem_cons.mp present).resolve_left (Ne.symm same)
        rw [if_neg same, if_neg same, inductionHypothesis restDistinct presentLater]

/-- A definition of a new name gets a set of its own after the others. -/
theorem addTo_map_of_not_mem
    {group : String → AlternativeSet}
    (named : ∀ name, (group name).name = name)
    (alternative : Alternative)
    {name : String}
    {names : List String}
    (absent : name ∉ names) :
    addTo name alternative (names.map group) =
      names.map group ++ [{ name, alternatives := [alternative] }] := by
  induction names with
  | nil => rfl
  | cons first names inductionHypothesis =>
      rw [List.mem_cons, not_or] at absent
      rw [List.map_cons, addTo_cons, named, if_neg (Ne.symm absent.1), inductionHypothesis absent.2]
      rfl

/-- The sets of a rule table: one for each name, in the order of first
definitions, with all definitions of the name in their order. -/
theorem sets_ofDefinitions (named : List (String × Alternative)) :
    (ofDefinitions named).sets =
      (NameSet.ofList (named.map (·.1))).toList.map (groupOf named) := by
  induction named using List.reverseRecOn with
  | nil => rfl
  | append_singleton named added inductionHypothesis =>
      have step : (ofDefinitions (named ++ [added])).sets =
          addTo added.1 added.2 (ofDefinitions named).sets := by
        rw [ofDefinitions, List.foldl_append]
        rfl
      rw [step, inductionHypothesis, List.map_append, List.map_singleton,
        NameSet.ofList_append_singleton, NameSet.toList_insert]
      split
      · next present =>
          rw [addTo_map_of_mem (fun _ => rfl) added.2 (NameSet.distinct _) present]
          apply List.map_congr_left
          intro name _
          exact (groupOf_append_singleton named added name).symm
      · next absent =>
          rw [addTo_map_of_not_mem (fun _ => rfl) added.2 absent, List.map_append]
          congr 1
          · apply List.map_congr_left
            intro name member
            have different : name ≠ added.1 := by
              rintro rfl
              exact absent member
            rw [groupOf_append_singleton, if_neg different]
          · have noneBefore : named.filter (·.1 = added.1) = [] := by
              apply List.filter_eq_nil_iff.mpr
              intro entry member same
              apply absent
              rw [← NameSet.mem_def, NameSet.mem_ofList]
              exact List.mem_map.mpr ⟨entry, member, of_decide_eq_true same⟩
            simp [groupOf, noneBefore]

/-- The definitions in a rule table are those it was made of. -/
theorem mem_alternatives_iff
    {named : List (String × Alternative)}
    {alternative : Alternative} :
    (∃ set ∈ (ofDefinitions named).sets, alternative ∈ set.alternatives) ↔
      ∃ name, (name, alternative) ∈ named := by
  rw [sets_ofDefinitions]
  constructor
  · rintro ⟨_, isSet, member⟩
    obtain ⟨name, _, rfl⟩ := List.mem_map.mp isSet
    obtain ⟨⟨found, _⟩, isNamed, rfl⟩ := List.mem_map.mp member
    exact ⟨found, List.mem_of_mem_filter isNamed⟩
  · rintro ⟨name, member⟩
    refine ⟨groupOf named name, List.mem_map_of_mem ?_, ?_⟩
    · rw [← NameSet.mem_def, NameSet.mem_ofList]
      exact List.mem_map.mpr ⟨(name, alternative), member, rfl⟩
    · exact List.mem_map.mpr
        ⟨(name, alternative), List.mem_filter.mpr ⟨member, by simp⟩, rfl⟩

/-- No set of a rule table is empty. -/
theorem alternatives_ne_nil
    {named : List (String × Alternative)}
    {set : AlternativeSet}
    (isSet : set ∈ (ofDefinitions named).sets) :
    set.alternatives ≠ [] := by
  rw [sets_ofDefinitions] at isSet
  obtain ⟨name, member, rfl⟩ := List.mem_map.mp isSet
  rw [← NameSet.mem_def, NameSet.mem_ofList] at member
  obtain ⟨entry, isNamed, rfl⟩ := List.mem_map.mp member
  apply List.ne_nil_of_mem
  exact List.mem_map.mpr ⟨entry, List.mem_filter.mpr ⟨isNamed, by simp⟩, rfl⟩

end RuleTable
end GrammarCompiler
