import GrammarCompiler.Json.Writer
import GrammarCompiler.Proofs.Lexemes

/-!
# Written values are read back

A value that is made of texts and natural numbers of 64 bits is read back from
its compact text.  The induction is on how the value is made; what follows the
value in the text must not go on with a number, and the reader may go down as
many steps as the text of the value has characters.
-/

namespace GrammarCompiler
namespace Json

/-- A value that is made of texts and natural numbers of 64 bits. -/
inductive IsPlain : Json → Prop where
  | null : IsPlain .null
  | bool (value : Bool) : IsPlain (.bool value)
  | natural {value : Nat} : value < Number.naturalBound → IsPlain (.ofNat value)
  | text (text : String) : IsPlain (.ofString text)
  | array {elements : List Json} :
      (∀ element ∈ elements, IsPlain element) → IsPlain (.array elements)
  | object {members : List (String × Json)} :
      (∀ member ∈ members, IsPlain member.2) → IsPlain (.ofMembers members)

/-- The member of an object under a given key. -/
def memberOf (member : String × Json) : List Char × Json :=
  (Quoted.escape member.1.toList, member.2)

theorem ofMembers_eq (members : List (String × Json)) :
    ofMembers members = .object (members.map memberOf) := rfl

/-! ## What is written -/

theorem writeElements_cons_cons
    (first second : Json)
    (others : List Json)
    (rest : List Char) :
    writeElements (first :: second :: others) rest =
      write first (',' :: writeElements (second :: others) rest) := by
  rw [writeElements]
  nofun

theorem writeMembers_singleton
    (member : List Char × Json)
    (rest : List Char) :
    writeMembers [member] rest = '"' :: (member.1 ++ '"' :: ':' :: write member.2 rest) := by
  rw [writeMembers]

theorem writeMembers_cons_cons
    (first second : List Char × Json)
    (others : List (List Char × Json))
    (rest : List Char) :
    writeMembers (first :: second :: others) rest =
      '"' :: (first.1 ++ '"' :: ':' ::
        write first.2 (',' :: writeMembers (second :: others) rest)) := by
  rw [writeMembers]
  nofun

theorem writeElements_append
    {elements : List Json}
    (each : ∀ element ∈ elements, ∀ left right,
      write element (left ++ right) = write element left ++ right)
    (left right : List Char) :
    writeElements elements (left ++ right) = writeElements elements left ++ right := by
  induction elements with
  | nil => rw [writeElements, writeElements]
  | cons first others inductionHypothesis =>
      obtain ⟨ofFirst, ofOthers⟩ := List.forall_mem_cons.mp each
      cases others with
      | nil => simpa only [writeElements] using ofFirst left right
      | cons second others =>
          rw [writeElements_cons_cons, writeElements_cons_cons, inductionHypothesis ofOthers,
            ← List.cons_append, ofFirst]

theorem writeMembers_append
    {members : List (List Char × Json)}
    (each : ∀ member ∈ members, ∀ left right,
      write member.2 (left ++ right) = write member.2 left ++ right)
    (left right : List Char) :
    writeMembers members (left ++ right) = writeMembers members left ++ right := by
  induction members with
  | nil => rw [writeMembers, writeMembers]
  | cons first others inductionHypothesis =>
      obtain ⟨ofFirst, ofOthers⟩ := List.forall_mem_cons.mp each
      cases others with
      | nil => simp only [writeMembers_singleton, ofFirst, List.cons_append, List.append_assoc]
      | cons second others =>
          have afterFirst := ofFirst (',' :: writeMembers (second :: others) left) right
          rw [writeMembers_cons_cons, writeMembers_cons_cons, inductionHypothesis ofOthers]
          rw [List.cons_append] at afterFirst
          simp only [afterFirst, List.cons_append, List.append_assoc]

namespace IsPlain

/-- What follows a value stands after its text. -/
theorem write_append
    {json : Json}
    (plain : json.IsPlain)
    (left right : List Char) :
    write json (left ++ right) = write json left ++ right := by
  induction plain generalizing left right with
  | null => rw [write, write]; rfl
  | bool value => cases value <;> rw [write, write] <;> rfl
  | natural => rw [ofNat, write, write, List.append_assoc]
  | text text =>
      rw [ofString, write, write]
      simp only [List.cons_append, List.append_assoc]
  | array _ ofElements =>
      rw [write, write, ← List.cons_append, writeElements_append ofElements]
      rfl
  | object _ ofMembers =>
      have each : ∀ member ∈ List.map memberOf _, ∀ left right,
          write member.2 (left ++ right) = write member.2 left ++ right :=
        List.forall_mem_map.mpr ofMembers
      rw [ofMembers_eq, write, write, ← List.cons_append, writeMembers_append each]
      rfl

theorem write_eq_append
    {json : Json}
    (plain : json.IsPlain)
    (rest : List Char) :
    write json rest = write json [] ++ rest :=
  plain.write_append [] rest

/-- The text of a value begins with a character that is no blank and closes no
array. -/
theorem exists_write_eq_cons
    {json : Json}
    (plain : json.IsPlain)
    (rest : List Char) :
    ∃ first others, write json rest = first :: others ∧ isBlank first = false ∧ first ≠ ']' := by
  cases plain with
  | null => exact ⟨_, _, by rw [write], by decide, by decide⟩
  | bool value => cases value <;> exact ⟨_, _, by rw [write], by decide, by decide⟩
  | @natural value =>
      rw [ofNat, write]
      cases written : Number.ofNat value with
      | nil => exact absurd written (Number.ofNat_ne_nil value)
      | cons first others =>
          have isDigit := Number.isDigit_of_mem_ofNat (written ▸ List.mem_cons_self)
          refine ⟨first, others ++ rest, rfl, ?_, ?_⟩
          · rw [Bool.eq_false_iff]
            intro blank
            simp only [isBlank, Bool.or_eq_true, decide_eq_true_eq] at blank
            rcases blank with ((rfl | rfl) | rfl) | rfl <;> exact absurd isDigit (by decide)
          · rintro rfl
            exact absurd isDigit (by decide)
  | text text => exact ⟨_, _, by rw [ofString, write], by decide, by decide⟩
  | array => exact ⟨_, _, by rw [write], by decide, by decide⟩
  | object => exact ⟨_, _, by rw [ofMembers_eq, write], by decide, by decide⟩

end IsPlain

theorem exists_writeElements_eq_cons
    {first : Json}
    {others : List Json}
    (plain : ∀ element ∈ first :: others, element.IsPlain)
    (rest : List Char) :
    ∃ c after, writeElements (first :: others) rest = c :: after ∧
      isBlank c = false ∧ c ≠ ']' := by
  have firstPlain := plain first List.mem_cons_self
  cases others with
  | nil =>
      rw [writeElements]
      exact firstPlain.exists_write_eq_cons rest
  | cons second others =>
      rw [writeElements_cons_cons]
      exact firstPlain.exists_write_eq_cons _

theorem exists_writeMembers_eq_cons
    (first : List Char × Json)
    (others : List (List Char × Json))
    (rest : List Char) :
    ∃ after, writeMembers (first :: others) rest = '"' :: after := by
  cases others with
  | nil => exact ⟨_, writeMembers_singleton first rest⟩
  | cons second others => exact ⟨_, writeMembers_cons_cons first second others rest⟩

/-! ## What is read -/

theorem skipBlanks_cons
    {first : Char}
    (notBlank : isBlank first = false)
    (others : List Char) :
    skipBlanks (first :: others) = first :: others := by
  simp [skipBlanks, notBlank]

theorem endsNumber_cons
    {first : Char}
    (mark : first = ',' ∨ first = ']' ∨ first = '}')
    (others : List Char) :
    EndsNumber (first :: others) := by
  rintro c ⟨⟩
  rcases mark with rfl | rfl | rfl <;> decide

/-- A value that begins with a digit is a number. -/
theorem readValue_of_isDigit
    (steps : Nat)
    {first : Char}
    (isDigit : first.isDigit = true)
    (others : List Char) :
    readValue (steps + 1) (first :: others) =
      (readNumber (first :: others)).map fun (lexeme, rest) => (.number lexeme, rest) := by
  have notBlank : isBlank first = false := by
    rw [Bool.eq_false_iff]
    intro blank
    simp only [isBlank, Bool.or_eq_true, decide_eq_true_eq] at blank
    rcases blank with ((rfl | rfl) | rfl) | rfl <;> exact absurd isDigit (by decide)
  rw [readValue, skipBlanks_cons notBlank]
  split
  iterate 6
    · next same =>
        rw [(List.cons.inj same).1] at isDigit
        exact absurd isDigit (by decide)
  · rfl

/-- An array that is not closed at once holds elements. -/
theorem readValue_elements
    (steps : Nat)
    {first : Char}
    (notBlank : isBlank first = false)
    (notClosing : first ≠ ']')
    (others : List Char) :
    readValue (steps + 1) ('[' :: first :: others) =
      (readElements steps (first :: others)).map fun (elements, rest) =>
        (.array elements, rest) := by
  rw [readValue, skipBlanks_cons (by decide)]
  simp only [skipBlanks_cons notBlank]
  split
  · next same => exact absurd (List.cons.inj same).1 notClosing
  · rfl

/-- An object whose text goes on with a quote holds members. -/
theorem readValue_members
    (steps : Nat)
    (others : List Char) :
    readValue (steps + 1) ('{' :: '"' :: others) =
      (readMembers steps ('"' :: others)).map fun (members, rest) => (.object members, rest) := by
  simp [readValue, skipBlanks, isBlank]

/-- A value is read back from its text. -/
def ReadsBack (json : Json) : Prop :=
  ∀ steps rest, (write json []).length ≤ steps → EndsNumber rest →
    readValue steps (write json rest) = some (json, rest)

theorem readElements_writeElements
    {elements : List Json}
    (nonempty : elements ≠ [])
    (plain : ∀ element ∈ elements, element.IsPlain)
    (each : ∀ element ∈ elements, element.ReadsBack)
    (steps : Nat)
    (rest : List Char)
    (enough : (writeElements elements []).length + 1 ≤ steps) :
    readElements steps (writeElements elements (']' :: rest)) = some (elements, rest) := by
  induction elements generalizing steps with
  | nil => exact absurd rfl nonempty
  | cons first others inductionHypothesis =>
      obtain ⟨firstPlain, othersPlain⟩ := List.forall_mem_cons.mp plain
      obtain ⟨ofFirst, ofOthers⟩ := List.forall_mem_cons.mp each
      obtain ⟨steps, rfl⟩ : ∃ fewer, steps = fewer + 1 := ⟨steps - 1, by omega⟩
      cases others with
      | nil =>
          rw [writeElements] at enough ⊢
          have firstRead := ofFirst steps (']' :: rest) (by omega) (endsNumber_cons (by simp) _)
          have closing : skipBlanks (']' :: rest) = ']' :: rest := skipBlanks_cons (by decide) _
          simp [readElements, firstRead, closing]
      | cons second others =>
          rw [writeElements_cons_cons] at enough ⊢
          rw [firstPlain.write_eq_append, List.length_append, List.length_cons] at enough
          have firstRead := ofFirst steps
            (',' :: writeElements (second :: others) (']' :: rest)) (by omega)
            (endsNumber_cons (by simp) _)
          have othersRead := inductionHypothesis (by simp) othersPlain ofOthers steps (by omega)
          have comma (after : List Char) : skipBlanks (',' :: after) = ',' :: after :=
            skipBlanks_cons (by decide) _
          simp [readElements, firstRead, comma, othersRead]

theorem readMembers_writeMembers
    {members : List (List Char × Json)}
    (nonempty : members ≠ [])
    (keys : ∀ member ∈ members, ∃ chars, member.1 = Quoted.escape chars)
    (plain : ∀ member ∈ members, member.2.IsPlain)
    (each : ∀ member ∈ members, member.2.ReadsBack)
    (steps : Nat)
    (rest : List Char)
    (enough : (writeMembers members []).length + 1 ≤ steps) :
    readMembers steps (writeMembers members ('}' :: rest)) = some (members, rest) := by
  have quote (after : List Char) : skipBlanks ('"' :: after) = '"' :: after :=
    skipBlanks_cons (by decide) _
  have colon (after : List Char) : skipBlanks (':' :: after) = ':' :: after :=
    skipBlanks_cons (by decide) _
  induction members generalizing steps with
  | nil => exact absurd rfl nonempty
  | cons first others inductionHypothesis =>
      obtain ⟨⟨chars, firstKey⟩, othersKeys⟩ := List.forall_mem_cons.mp keys
      obtain ⟨firstPlain, othersPlain⟩ := List.forall_mem_cons.mp plain
      obtain ⟨ofFirst, ofOthers⟩ := List.forall_mem_cons.mp each
      obtain ⟨steps, rfl⟩ : ∃ fewer, steps = fewer + 1 := ⟨steps - 1, by omega⟩
      have keyRead (after : List Char) :
          readLexeme [] (first.1 ++ '"' :: after) = some (first.1, after) := by
        rw [firstKey, readLexeme_escape]
      cases others with
      | nil =>
          simp only [writeMembers_singleton, List.length_cons, List.length_append] at enough ⊢
          have firstRead := ofFirst steps ('}' :: rest) (by omega) (endsNumber_cons (by simp) _)
          have closing : skipBlanks ('}' :: rest) = '}' :: rest := skipBlanks_cons (by decide) _
          simp [readMembers, quote, keyRead, colon, firstRead, closing]
      | cons second others =>
          rw [writeMembers_cons_cons] at enough ⊢
          rw [firstPlain.write_eq_append] at enough
          simp only [List.length_cons, List.length_append] at enough
          have firstRead := ofFirst steps
            (',' :: writeMembers (second :: others) ('}' :: rest)) (by omega)
            (endsNumber_cons (by simp) _)
          have othersRead :=
            inductionHypothesis (by simp) othersKeys othersPlain ofOthers steps (by omega)
          have comma (after : List Char) : skipBlanks (',' :: after) = ',' :: after :=
            skipBlanks_cons (by decide) _
          simp [readMembers, quote, keyRead, colon, firstRead, comma, othersRead]

theorem elementsStorable_eq_all
    (elements : List Json) :
    elementsStorable elements = elements.all isStorable := by
  induction elements with
  | nil => rw [elementsStorable, List.all_nil]
  | cons first others inductionHypothesis =>
      rw [elementsStorable, List.all_cons, inductionHypothesis]

theorem membersStorable_eq_all
    (members : List (List Char × Json)) :
    membersStorable members =
      members.all fun member => (Quoted.unescape? member.1).isSome && member.2.isStorable := by
  induction members with
  | nil => rw [membersStorable, List.all_nil]
  | cons first others inductionHypothesis =>
      rw [membersStorable, List.all_cons, inductionHypothesis]

namespace IsPlain

/-- The text of a value is not empty, so a reader that may go down as many
steps as it has characters takes at least one. -/
theorem readsBack_of_succ
    {json : Json}
    (plain : json.IsPlain)
    (each : ∀ steps rest, (write json []).length ≤ steps + 1 → EndsNumber rest →
      readValue (steps + 1) (write json rest) = some (json, rest)) :
    json.ReadsBack := by
  intro steps rest enough ends
  obtain ⟨first, others, written, -⟩ := plain.exists_write_eq_cons []
  have positive : 0 < steps := by
    rw [written, List.length_cons] at enough
    omega
  obtain ⟨steps, rfl⟩ := Nat.exists_eq_add_one.mpr positive
  exact each steps rest enough ends

/-- Every value made of texts and natural numbers is read back. -/
theorem readsBack
    {json : Json}
    (plain : json.IsPlain) :
    json.ReadsBack := by
  induction plain with
  | null =>
      refine readsBack_of_succ .null fun steps rest _ _ => ?_
      simp [write, readValue, skipBlanks, isBlank]
  | bool value =>
      refine readsBack_of_succ (.bool value) fun steps rest _ _ => ?_
      cases value <;> simp [write, readValue, skipBlanks, isBlank]
  | @natural value small =>
      refine readsBack_of_succ (.natural small) fun steps rest _ ends => ?_
      have numberRead := readNumber_ofNat value ends
      rw [ofNat, write]
      cases written : Number.ofNat value with
      | nil => exact absurd written (Number.ofNat_ne_nil value)
      | cons first others =>
          have isDigit := Number.isDigit_of_mem_ofNat (written ▸ List.mem_cons_self)
          rw [written, List.cons_append] at numberRead
          rw [List.cons_append, readValue_of_isDigit steps isDigit, numberRead, Option.map_some]
  | text text =>
      refine readsBack_of_succ (.text text) fun steps rest _ _ => ?_
      simp [ofString, write, readValue, skipBlanks, isBlank, readLexeme_escape]
  | @array elements plain ofElements =>
      refine readsBack_of_succ (.array plain) fun steps rest enough _ => ?_
      have same := writeElements_append (fun element member => (plain element member).write_append)
        [] [']']
      rw [write] at enough ⊢
      rw [List.nil_append] at same
      rw [same, List.length_cons, List.length_append, List.length_singleton] at enough
      cases elements with
      | nil => simp [writeElements, readValue, skipBlanks, isBlank]
      | cons first others =>
          have elementsRead := readElements_writeElements (List.cons_ne_nil first others) plain
            ofElements steps rest (by omega)
          obtain ⟨c, after, written, notBlank, notClosing⟩ :=
            exists_writeElements_eq_cons plain (']' :: rest)
          rw [written] at elementsRead
          rw [written, readValue_elements steps notBlank notClosing, elementsRead,
            Option.map_some]
  | @object members plain ofMembers =>
      refine readsBack_of_succ (.object plain) fun steps rest enough _ => ?_
      have membersPlain : ∀ member ∈ members.map memberOf, member.2.IsPlain :=
        List.forall_mem_map.mpr plain
      have keys : ∀ member ∈ members.map memberOf, ∃ chars, member.1 = Quoted.escape chars :=
        List.forall_mem_map.mpr fun member _ => ⟨member.1.toList, rfl⟩
      have same := writeMembers_append
        (fun member within => (membersPlain member within).write_append) [] ['}']
      rw [ofMembers_eq, write] at enough ⊢
      rw [List.nil_append] at same
      rw [same, List.length_cons, List.length_append, List.length_singleton] at enough
      cases members with
      | nil => simp [writeMembers, readValue, skipBlanks, isBlank]
      | cons first others =>
          have membersRead := readMembers_writeMembers (by simp) keys membersPlain
            (List.forall_mem_map.mpr ofMembers) steps rest (by omega)
          obtain ⟨after, written⟩ :=
            exists_writeMembers_eq_cons (memberOf first) (others.map memberOf) ('}' :: rest)
          rw [List.map_cons] at membersRead ⊢
          rw [written] at membersRead ⊢
          rw [readValue_members, membersRead, Option.map_some]

/-- Such a value is what its text holds. -/
theorem parse?_text
    {json : Json}
    (plain : json.IsPlain) :
    parse? json.text = some json := by
  rw [parse?, Json.text, String.toList_ofList]
  refine Option.bind_eq_some_iff.mpr ⟨(json, []), ?_, rfl⟩
  exact plain.readsBack (2 * (write json []).length + 2) [] (by omega) nofun

/-- Such a value can be stored. -/
theorem isStorable
    {json : Json}
    (plain : json.IsPlain) :
    json.isStorable = true := by
  induction plain with
  | null => rfl
  | bool => rfl
  | natural small => rw [ofNat, Json.isStorable, Number.inRange_ofNat small]
  | text text => simp [ofString, Json.isStorable]
  | array _ ofElements =>
      rw [Json.isStorable, elementsStorable_eq_all, List.all_eq_true]
      exact ofElements
  | object _ ofMembers =>
      rw [ofMembers_eq, Json.isStorable, membersStorable_eq_all, List.all_eq_true,
        List.forall_mem_map]
      intro member within
      simp [memberOf, ofMembers member within]

end IsPlain

end Json
end GrammarCompiler
