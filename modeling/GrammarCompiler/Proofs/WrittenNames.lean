import GrammarCompiler.Analysis.WrittenName

/-!
# What a written name calls

A text with a dot always calls a rule.  A qualifier `base.` or `super.`, in
letters of either case, asks for the ancestor's rule and is not part of its
name.  The relations below say so apart from the order in which qualifiers are
tried, and the classification of written names agrees with them.
-/

namespace GrammarCompiler
namespace WrittenName

/-- A text is written with a dot. -/
def IsQualified (text : String) : Prop :=
  '.' ∈ (Text.trim text).toList

/-- A text starts with a qualifier.  The case of letters is ignored. -/
def StartsWith (text qualifier : String) : Prop :=
  qualifier.toList <+: (Text.trim text).toList.map Char.toLower

/-- A qualifier asks for the ancestor's rule. -/
def IsAncestorQualifier (qualifier : String) : Prop :=
  qualifier = "base." ∨ qualifier = "super."

/-- A text asks for the ancestor's rule. -/
def AsksAncestor (text : String) : Prop :=
  ∃ qualifier, IsAncestorQualifier qualifier ∧ StartsWith text qualifier

/-- The rule that a text calls, and whether the ancestor's rule is meant. -/
inductive CallsRule (text : String) : String → Bool → Prop where
  | ancestor {qualifier : String} :
      IsAncestorQualifier qualifier → StartsWith text qualifier →
        CallsRule text (String.ofList ((Text.trim text).toList.drop qualifier.length)) true
  | plain :
      ¬AsksAncestor text → CallsRule text (Text.trim text) false

/-- What follows a qualifier is found if the text starts with it. -/
theorem afterQualifier?_eq_some_iff
    {text qualifier : String}
    {rest : List Char} :
    afterQualifier? (Text.trim text).toList qualifier.toList = some rest ↔
      StartsWith text qualifier ∧ (Text.trim text).toList.drop qualifier.length = rest := by
  rw [StartsWith, List.prefix_iff_eq_take, ← List.map_take, eq_comm (a := qualifier.toList),
    ← String.length_toList]
  unfold afterQualifier?
  split
  · next starts =>
      exact ⟨fun found => ⟨starts, Option.some.inj found⟩, fun ⟨_, same⟩ => congrArg some same⟩
  · next different =>
      exact ⟨nofun, fun ⟨starts, _⟩ => absurd starts different⟩

theorem eq_dot_of_toLower_eq
    {c : Char}
    (lowered : c.toLower = '.') :
    c = '.' := by
  unfold Char.toLower at lowered
  split at lowered
  · next isUpper =>
      have value := congrArg (UInt32.toNat ∘ Char.val) lowered
      have least := UInt32.le_iff_toNat_le.mp isUpper.1
      have most := UInt32.le_iff_toNat_le.mp isUpper.2
      simp at value least most
      omega
  · exact lowered

/-- An ancestor qualifier brings a dot. -/
theorem AsksAncestor.isQualified
    {text : String}
    (asks : AsksAncestor text) :
    IsQualified text := by
  obtain ⟨qualifier, isAncestor, starts⟩ := asks
  have dotted : '.' ∈ qualifier.toList := by
    rcases isAncestor with rfl | rfl <;> decide
  obtain ⟨c, member, lowered⟩ := List.mem_map.mp (starts.subset dotted)
  rw [eq_dot_of_toLower_eq lowered] at member
  exact member

/-- A text starts with one ancestor qualifier only. -/
theorem StartsWith.unique
    {text left right : String}
    (isLeft : IsAncestorQualifier left)
    (isRight : IsAncestorQualifier right)
    (startsLeft : StartsWith text left)
    (startsRight : StartsWith text right) :
    left = right := by
  have notBoth (starts : StartsWith text "base.") : ¬StartsWith text "super." := by
    intro other
    have shorter := List.prefix_of_prefix_length_le starts other (by decide)
    revert shorter
    decide
  rcases isLeft with rfl | rfl <;> rcases isRight with rfl | rfl
  · rfl
  · exact absurd startsRight (notBoth startsLeft)
  · exact absurd startsLeft (notBoth startsRight)
  · rfl

/-- A text calls one rule. -/
theorem CallsRule.unique
    {text left right : String}
    {leftBypass rightBypass : Bool}
    (callsLeft : CallsRule text left leftBypass)
    (callsRight : CallsRule text right rightBypass) :
    left = right ∧ leftBypass = rightBypass := by
  cases callsLeft with
  | ancestor isLeft startsLeft =>
      cases callsRight with
      | ancestor isRight startsRight =>
          cases StartsWith.unique isLeft isRight startsLeft startsRight
          exact ⟨rfl, rfl⟩
      | plain notAsked => exact absurd ⟨_, isLeft, startsLeft⟩ notAsked
  | plain notAsked =>
      cases callsRight with
      | ancestor isRight startsRight => exact absurd ⟨_, isRight, startsRight⟩ notAsked
      | plain => exact ⟨rfl, rfl⟩

/-! ## The classification of written names -/

theorem ofText_of_not_isQualified
    {text : String}
    (notQualified : ¬IsQualified text) :
    ofText text = .bare (Text.trim text) := by
  rw [IsQualified, Text.toList_trim] at notQualified
  unfold ofText
  rw [if_neg notQualified]
  rfl

/-- The ancestor qualifier that is found is one that the text starts with. -/
theorem exists_startsWith_of_findSome?
    {text : String}
    {rest : List Char}
    (found : ancestorQualifiers.findSome? (afterQualifier? (Text.trim text).toList) = some rest) :
    ∃ qualifier, IsAncestorQualifier qualifier ∧ StartsWith text qualifier ∧
      (Text.trim text).toList.drop qualifier.length = rest := by
  obtain ⟨chars, isQualifier, after⟩ := List.exists_of_findSome?_eq_some found
  have spelled : ∃ qualifier : String,
      IsAncestorQualifier qualifier ∧ qualifier.toList = chars := by
    rw [ancestorQualifiers, List.mem_cons, List.mem_singleton] at isQualifier
    rcases isQualifier with rfl | rfl
    · exact ⟨"base.", .inl rfl, rfl⟩
    · exact ⟨"super.", .inr rfl, rfl⟩
  obtain ⟨qualifier, isAncestor, rfl⟩ := spelled
  exact ⟨qualifier, isAncestor, afterQualifier?_eq_some_iff.mp after⟩

/-- No ancestor qualifier is found unless the text starts with one. -/
theorem not_asksAncestor_of_findSome?
    {text : String}
    (notFound : ancestorQualifiers.findSome? (afterQualifier? (Text.trim text).toList) = none) :
    ¬AsksAncestor text := by
  rintro ⟨qualifier, isAncestor, starts⟩
  have isQualifier : qualifier.toList ∈ ancestorQualifiers := by
    rcases isAncestor with rfl | rfl <;> decide
  have absent := List.findSome?_eq_none_iff.mp notFound _ isQualifier
  rw [afterQualifier?_eq_some_iff.mpr ⟨starts, rfl⟩] at absent
  cases absent

/-- A text with a dot is classified by the rule that it calls. -/
theorem ofText_of_isQualified
    {text : String}
    (qualified : IsQualified text) :
    ∃ name bypass, ofText text = .qualified name bypass ∧ CallsRule text name bypass := by
  have dotted : '.' ∈ Text.trimChars text.toList := by
    rwa [IsQualified, Text.toList_trim] at qualified
  cases found : ancestorQualifiers.findSome? (afterQualifier? (Text.trim text).toList) with
  | some rest =>
      obtain ⟨qualifier, isAncestor, starts, rfl⟩ := exists_startsWith_of_findSome? found
      refine ⟨_, true, ?_, .ancestor isAncestor starts⟩
      rw [Text.toList_trim] at found
      simp only [ofText, if_pos dotted, found, Text.toList_trim]
  | none =>
      refine ⟨_, false, ?_, .plain (not_asksAncestor_of_findSome? found)⟩
      rw [Text.toList_trim] at found
      simp only [ofText, if_pos dotted, found, Text.trim]

theorem ofText_eq_qualified_iff
    {text name : String}
    {bypass : Bool} :
    ofText text = .qualified name bypass ↔ IsQualified text ∧ CallsRule text name bypass := by
  constructor
  · intro classified
    by_cases qualified : IsQualified text
    · obtain ⟨_, _, classified', calls⟩ := ofText_of_isQualified qualified
      cases classified.symm.trans classified'
      exact ⟨qualified, calls⟩
    · rw [ofText_of_not_isQualified qualified] at classified
      cases classified
  · rintro ⟨qualified, calls⟩
    obtain ⟨_, _, classified, calls'⟩ := ofText_of_isQualified qualified
    obtain ⟨rfl, rfl⟩ := calls.unique calls'
    exact classified

/-- The name and the flag of a written name are those of the rule that it
calls. -/
theorem callsRule_ofText (text : String) :
    CallsRule text (ofText text).name (ofText text).bypass := by
  by_cases qualified : IsQualified text
  · obtain ⟨name, bypass, classified, calls⟩ := ofText_of_isQualified qualified
    rw [classified]
    exact calls
  · rw [ofText_of_not_isQualified qualified]
    exact .plain fun asks => qualified asks.isQualified

end WrittenName
end GrammarCompiler
