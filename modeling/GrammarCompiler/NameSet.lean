/-!
# Sets of names in first-seen order

A name is added at the end unless it is there already, so the names of a set
are distinct and stand in the order in which they were first added.
-/

namespace GrammarCompiler

/-- Distinct names in the order in which they were first added. -/
structure NameSet where
  toList : List String
  distinct : toList.Nodup
  deriving DecidableEq

namespace NameSet

instance : Membership String NameSet := ⟨fun names name => name ∈ names.toList⟩

instance (name : String) (names : NameSet) : Decidable (name ∈ names) :=
  inferInstanceAs (Decidable (name ∈ names.toList))

/-- The set without names. -/
def empty : NameSet := { toList := [], distinct := List.Pairwise.nil }

instance : Inhabited NameSet := ⟨empty⟩

/-- Whether a name belongs to the set. -/
def contains (names : NameSet) (name : String) : Bool :=
  decide (name ∈ names)

/-- Add a name at the end unless it is there already. -/
def insert (names : NameSet) (name : String) : NameSet :=
  if h : name ∈ names.toList then names
  else
    { toList := names.toList ++ [name]
      distinct := by
        rw [List.nodup_append]
        refine ⟨names.distinct, by simp, ?_⟩
        intro other otherMem last lastMem equal
        rw [List.mem_singleton] at lastMem
        exact h (lastMem ▸ equal ▸ otherMem) }

/-- Add names one after the other. -/
def insertAll (names : NameSet) (added : List String) : NameSet :=
  added.foldl insert names

/-- The distinct names of a list in first-seen order. -/
def ofList (names : List String) : NameSet :=
  empty.insertAll names

/-- The number of names. -/
def size (names : NameSet) : Nat :=
  names.toList.length

/-- No name belongs to the set. -/
def isEmpty (names : NameSet) : Bool :=
  names.toList.isEmpty

/-- The names in the order of their characters. -/
def sorted (names : NameSet) : List String :=
  names.toList.mergeSort (· ≤ ·)

theorem mem_def (name : String) (names : NameSet) :
    name ∈ names ↔ name ∈ names.toList := Iff.rfl

@[simp] theorem contains_iff (names : NameSet) (name : String) :
    names.contains name = true ↔ name ∈ names := by
  simp [contains]

@[simp] theorem not_mem_empty (name : String) : name ∉ empty := by
  simp [mem_def, empty]

@[simp] theorem mem_insert (names : NameSet) (name other : String) :
    other ∈ names.insert name ↔ other ∈ names ∨ other = name := by
  unfold insert
  split
  · next present =>
      constructor
      · exact Or.inl
      · rintro (member | rfl)
        · exact member
        · exact present
  · simp [mem_def]

@[simp] theorem mem_insertAll (names : NameSet) (added : List String) (other : String) :
    other ∈ names.insertAll added ↔ other ∈ names ∨ other ∈ added := by
  induction added generalizing names with
  | nil => simp [insertAll]
  | cons name rest inductionHypothesis =>
      have step : names.insertAll (name :: rest) = (names.insert name).insertAll rest := rfl
      rw [step, inductionHypothesis, mem_insert, List.mem_cons, or_assoc]

@[simp] theorem mem_ofList (names : List String) (other : String) :
    other ∈ ofList names ↔ other ∈ names := by
  simp [ofList]

end NameSet
end GrammarCompiler
