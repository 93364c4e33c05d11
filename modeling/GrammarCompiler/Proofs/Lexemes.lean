import GrammarCompiler.Json.Reader
import Mathlib.Data.List.TakeDrop
import Mathlib.Data.List.TakeWhile
import Mathlib.Tactic.SplitIfs

/-!
# Lexemes are read back

The lexeme of a text, followed by its closing quote, is read as a whole and
stands for the text.  The lexeme of a natural number is read as a whole if no
character follows that could go on with it, and stands for the number if the
number has 64 bits.
-/

namespace GrammarCompiler
namespace Json

/-! ## Texts -/

namespace Quoted

/-- The characters that are written with a letter after a backslash. -/
def shortEscapes : List (Char × Char) :=
  [('"', '"'), ('\\', '\\'), (Char.ofNat 0x08, 'b'), ('\t', 't'), ('\n', 'n'),
    (Char.ofNat 0x0C, 'f'), ('\r', 'r')]

theorem mem_shortEscapes
    {c letter : Char}
    (escaped : shortEscape? c = some letter) :
    (c, letter) ∈ shortEscapes := by
  unfold shortEscape? at escaped
  split_ifs at escaped <;> cases escaped <;> simp_all [shortEscapes, Char.ext_iff]

/-- A letter after a backslash stands for the character for which it is
written. -/
theorem shortMeaning?_of_shortEscape?
    {c letter : Char}
    (escaped : shortEscape? c = some letter) :
    shortMeaning? letter = some c := by
  have each : ∀ pair ∈ shortEscapes, shortMeaning? pair.2 = some pair.1 := by decide
  exact each (c, letter) (mem_shortEscapes escaped)

theorem letter_ne_of_shortEscape?
    {c letter : Char}
    (escaped : shortEscape? c = some letter) :
    letter ≠ 'u' := by
  have each : ∀ pair ∈ shortEscapes, pair.2 ≠ 'u' := by decide
  exact each (c, letter) (mem_shortEscapes escaped)

/-- A character without such a letter ends no lexeme and begins no escape. -/
theorem ne_of_shortEscape?_eq_none
    {c : Char}
    (plain : shortEscape? c = none) :
    c ≠ '"' ∧ c ≠ '\\' := by
  constructor
  · rintro rfl
    exact absurd plain (by decide)
  · rintro rfl
    exact absurd plain (by decide)

theorem toNat_lt_of_isControl
    {c : Char}
    (control : isControl c = true) :
    c.toNat < 32 := by
  simpa [isControl, UInt32.lt_iff_toNat_lt] using control

theorem hexValue?_hexDigit : ∀ value < 16, hexValue? (hexDigit value) = some value := by
  decide

/-- The four digits of a control character stand for it. -/
theorem hexUnit?_of_isControl
    {c : Char}
    (control : isControl c = true) :
    hexUnit? '0' '0' (hexDigit (c.toNat / 16)) (hexDigit (c.toNat % 16)) = some c.toNat := by
  have small := toNat_lt_of_isControl control
  have zero : hexValue? '0' = some 0 := by decide
  have high := hexValue?_hexDigit (c.toNat / 16) (by omega)
  have low := hexValue?_hexDigit (c.toNat % 16) (by omega)
  simp only [hexUnit?, zero, high, low, Option.bind_eq_bind, Option.bind_some]
  exact congrArg some (by omega)

/-- Four digits that are no half of a surrogate pair stand for one character,
whatever follows them. -/
theorem unescapeOnto_unit
    (read rest : List Char)
    {a b c d : Char}
    {unit : Nat}
    (isUnit : hexUnit? a b c d = some unit)
    (notHigh : isHighSurrogate unit = false)
    (notLow : isLowSurrogate unit = false) :
    unescapeOnto read ('\\' :: 'u' :: a :: b :: c :: d :: rest) =
      unescapeOnto (Char.ofNat unit :: read) rest := by
  rw [unescapeOnto.eq_def]
  split
  · next absurdity => cases absurdity
  · next same =>
      cases same
      simp only [isUnit, notHigh, notLow, Bool.false_eq_true, if_false]
  · next same =>
      cases same
      simp only [isUnit, notHigh, notLow, Bool.or_self, Bool.false_eq_true, if_false]
  · next noUnit same =>
      cases same
      exact absurd rfl (noUnit a b c d rest rfl)
  · next noLetter same =>
      cases same
      exact absurd rfl (noLetter 'u' (a :: b :: c :: d :: rest) rfl)

/-- The lexeme of a character stands for it, whatever follows. -/
theorem unescapeOnto_escapeChar
    (read : List Char)
    (c : Char)
    (rest : List Char) :
    unescapeOnto read (escapeChar c ++ rest) = unescapeOnto (c :: read) rest := by
  unfold escapeChar
  split
  · next letter escaped =>
      have notUnit := letter_ne_of_shortEscape? escaped
      have meaning := shortMeaning?_of_shortEscape? escaped
      rw [List.cons_append, List.cons_append, List.nil_append, unescapeOnto.eq_def]
      split
      · next absurdity => cases absurdity
      · next same => exact absurd (List.cons.inj (List.cons.inj same).2).1 notUnit
      · next same => exact absurd (List.cons.inj (List.cons.inj same).2).1 notUnit
      · next same =>
          cases same
          rw [meaning]
      · next noLetter same =>
          cases same
          exact absurd rfl (noLetter letter rest rfl)
  · next plain =>
      split
      · next control =>
          have small := toNat_lt_of_isControl control
          have notHigh : isHighSurrogate c.toNat = false := by
            simp only [isHighSurrogate, Bool.and_eq_false_imp, decide_eq_true_eq,
              decide_eq_false_iff_not]
            omega
          have notLow : isLowSurrogate c.toNat = false := by
            simp only [isLowSurrogate, Bool.and_eq_false_imp, decide_eq_true_eq,
              decide_eq_false_iff_not]
            omega
          have isUnit := hexUnit?_of_isControl control
          have oneUnit := unescapeOnto_unit read rest isUnit notHigh notLow
          rwa [Char.ofNat_toNat] at oneUnit
      · have notEscape := (ne_of_shortEscape?_eq_none plain).2
        rw [List.singleton_append, unescapeOnto.eq_def]
        split
        · next absurdity => cases absurdity
        · next same => exact absurd (List.cons.inj same).1 notEscape
        · next same => exact absurd (List.cons.inj same).1 notEscape
        · next same => exact absurd (List.cons.inj same).1 notEscape
        · next same =>
            cases same
            rw [if_neg notEscape]

theorem unescapeOnto_escape
    (read chars : List Char) :
    unescapeOnto read (escape chars) = some (read.reverse ++ chars) := by
  induction chars generalizing read with
  | nil => simp [escape, unescapeOnto]
  | cons c chars inductionHypothesis =>
      have step : escape (c :: chars) = escapeChar c ++ escape chars := rfl
      rw [step, unescapeOnto_escapeChar, inductionHypothesis]
      simp

/-- The lexeme of a text stands for the text. -/
@[simp] theorem unescape?_escape (chars : List Char) :
    unescape? (escape chars) = some chars :=
  unescapeOnto_escape [] chars

end Quoted

@[simp] theorem decode?_escape (text : String) :
    decode? (Quoted.escape text.toList) = some text := by
  simp [decode?]

/-- A lexeme is read on past the lexeme of a character. -/
theorem readLexeme_escapeChar
    (read : List Char)
    (c : Char)
    (rest : List Char) :
    readLexeme read (Quoted.escapeChar c ++ rest) =
      readLexeme ((Quoted.escapeChar c).reverse ++ read) rest := by
  unfold Quoted.escapeChar
  split
  · next letter escaped =>
      have notUnit := Quoted.letter_ne_of_shortEscape? escaped
      have isLetter : isEscapeLetter letter = true := by
        simp [isEscapeLetter, Quoted.shortMeaning?_of_shortEscape? escaped]
      simp only [List.cons_append, List.nil_append]
      rw [readLexeme.eq_def]
      split
      · next absurdity => cases absurdity
      · next same => exact absurd (List.cons.inj same).1 (by decide)
      · next same => exact absurd (List.cons.inj (List.cons.inj same).2).1 notUnit
      · next same =>
          cases same
          rw [if_pos isLetter]
          rfl
      · next noLetter same =>
          cases same
          exact absurd rfl (noLetter letter rest rfl)
  · next plain =>
      split
      · next control =>
          have small := Quoted.toNat_lt_of_isControl control
          have zero : isHexDigit '0' = true := by decide
          have digit (value : Nat) (small : value < 16) :
              isHexDigit (Quoted.hexDigit value) = true := by
            simp [isHexDigit, Quoted.hexValue?_hexDigit value small]
          simp only [List.cons_append, List.nil_append, readLexeme, zero,
            digit (c.toNat / 16) (by omega), digit (c.toNat % 16) (by omega), Bool.and_self,
            if_true]
          rfl
      · next notControl =>
          obtain ⟨notQuote, notEscape⟩ := Quoted.ne_of_shortEscape?_eq_none plain
          rw [List.singleton_append, readLexeme.eq_def]
          split
          · next absurdity => cases absurdity
          · next same => exact absurd (List.cons.inj same).1 notQuote
          · next same => exact absurd (List.cons.inj same).1 notEscape
          · next same => exact absurd (List.cons.inj same).1 notEscape
          · next same =>
              cases same
              rw [if_neg (by simp [notControl, notEscape])]
              rfl

theorem readLexeme_append_escape
    (read chars rest : List Char) :
    readLexeme read (Quoted.escape chars ++ '"' :: rest) =
      some (read.reverse ++ Quoted.escape chars, rest) := by
  induction chars generalizing read with
  | nil => simp [Quoted.escape, readLexeme]
  | cons c chars inductionHypothesis =>
      have step : Quoted.escape (c :: chars) = Quoted.escapeChar c ++ Quoted.escape chars := rfl
      rw [step, List.append_assoc, readLexeme_escapeChar, inductionHypothesis]
      simp

/-- The lexeme of a text is read up to its closing quote. -/
theorem readLexeme_escape
    (chars rest : List Char) :
    readLexeme [] (Quoted.escape chars ++ '"' :: rest) = some (Quoted.escape chars, rest) :=
  readLexeme_append_escape [] chars rest

/-! ## Numbers -/

namespace Number

theorem isDigit_of_mem_ofNat
    {value : Nat}
    {c : Char}
    (member : c ∈ ofNat value) :
    c.isDigit = true :=
  Nat.isDigit_of_mem_toDigits (by decide) (by decide) member

theorem ofNat_ne_nil (value : Nat) : ofNat value ≠ [] :=
  Nat.toDigits_ne_nil

@[simp] theorem digitsValue_ofNat (value : Nat) : digitsValue (ofNat value) = value := by
  have sameStep : (fun (sum : Nat) (c : Char) => sum * 10 + (c.toNat - 48)) =
      fun sum c => 10 * sum + (c.toNat - '0'.toNat) := by
    funext sum c
    rw [Nat.mul_comm]
    rfl
  have ofDigits : Nat.ofDigitChars 10 (Nat.toDigits 10 value) 0 = value :=
    Nat.ofDigitChars_ten_toDigits
  rw [digitsValue, sameStep, ofNat]
  exact ofDigits

/-- The lexeme of a number of 64 bits stands for the number. -/
theorem natural?_ofNat
    {value : Nat}
    (small : value < naturalBound) :
    natural? (ofNat value) = some value := by
  have notEmpty : (ofNat value).isEmpty = false := by
    simpa using ofNat_ne_nil value
  have allDigits : (ofNat value).all Char.isDigit = true :=
    List.all_eq_true.mpr fun c member => isDigit_of_mem_ofNat member
  rw [natural?, if_pos ⟨notEmpty, allDigits, by rwa [digitsValue_ofNat]⟩, digitsValue_ofNat]

/-- Only zero is written with a zero at the front. -/
theorem head?_ofNat_ne_zero
    {value : Nat}
    (positive : 0 < value) :
    (ofNat value).head? ≠ some '0' := by
  induction value using Nat.strongRecOn with
  | ind value inductionHypothesis =>
      by_cases small : value < 10
      · have each : ∀ digit < 10, 0 < digit → (Nat.toDigits 10 digit).head? ≠ some '0' := by
          decide
        exact each value small positive
      · have step : ofNat value = ofNat (value / 10) ++ [(value % 10).digitChar] :=
          Nat.toDigits_of_base_le (by decide) (by omega)
        have shorter := inductionHypothesis (value / 10) (by omega) (by omega)
        rw [step, List.head?_append]
        cases written : (ofNat (value / 10)).head? with
        | none => exact absurd (List.head?_eq_none_iff.mp written) (ofNat_ne_nil _)
        | some c =>
            rw [written] at shorter
            simpa using shorter

/-- The lexeme of a number of 64 bits has at most twenty digits and so lies in
range. -/
theorem inRange_ofNat
    {value : Nat}
    (small : value < naturalBound) :
    inRange (ofNat value) = true := by
  have fewDigits : (ofNat value).length ≤ 20 := by
    rw [ofNat, Nat.length_toDigits_le_iff (by decide) (by decide)]
    exact Nat.lt_trans small (by decide)
  have noSign : (ofNat value).dropWhile (· == '-') = ofNat value := by
    rw [List.dropWhile_eq_self_iff]
    intro nonempty isSign
    have isDigit := isDigit_of_mem_ofNat (List.getElem_mem nonempty)
    rw [eq_of_beq isSign] at isDigit
    exact absurd isDigit (by decide)
  have onlyDigits : (ofNat value).span Char.isDigit = (ofNat value, []) := by
    have all : ∀ c ∈ ofNat value, c.isDigit = true := fun c member => isDigit_of_mem_ofNat member
    rw [List.span_eq_takeWhile_dropWhile, List.takeWhile_eq_self_iff.mpr all,
      List.dropWhile_eq_nil_iff.mpr all]
  have fewer : ((ofNat value).dropWhile (· == '0')).length ≤ (ofNat value).length :=
    (List.dropWhile_sublist _).length_le
  have withoutFraction : parts (ofNat value) = ((ofNat value).dropWhile (· == '0'), 0) := by
    simp only [parts, noSign, onlyDigits, List.append_nil]
    rfl
  have inside : (((ofNat value).dropWhile (· == '0')).length : Int) + 0 ≤ 308 := by omega
  simp only [inRange, withoutFraction, decide_eq_true inside, Bool.or_true, if_true]

end Number

/-- No number goes on with these characters. -/
def EndsNumber (rest : List Char) : Prop :=
  ∀ c ∈ rest.head?, c.isDigit = false ∧ c ≠ '.' ∧ c ≠ 'e' ∧ c ≠ 'E'

theorem span_isDigit_append
    {digits rest : List Char}
    (allDigits : ∀ c ∈ digits, c.isDigit = true)
    (ends : EndsNumber rest) :
    (digits ++ rest).span Char.isDigit = (digits, rest) := by
  have restTaken : rest.takeWhile Char.isDigit = [] ∧ rest.dropWhile Char.isDigit = rest := by
    cases rest with
    | nil => exact ⟨rfl, rfl⟩
    | cons c rest =>
        have notDigit := (ends c rfl).1
        simp [notDigit]
  rw [List.span_eq_takeWhile_dropWhile, List.takeWhile_append_of_pos allDigits,
    List.dropWhile_append_of_pos allDigits, restTaken.1, restTaken.2, List.append_nil]

theorem readFraction_of_endsNumber
    {rest : List Char}
    (ends : EndsNumber rest) :
    readFraction rest = some ([], rest) := by
  unfold readFraction
  split
  · next after => exact absurd rfl (ends '.' rfl).2.1
  · rfl

theorem readExponent_of_endsNumber
    {rest : List Char}
    (ends : EndsNumber rest) :
    readExponent rest = some ([], rest) := by
  cases rest with
  | nil => rfl
  | cons c rest =>
      obtain ⟨_, _, notLower, notUpper⟩ := ends c rfl
      simp only [readExponent, notLower, notUpper, or_self, if_false]

/-- The digits of a number are read as a whole. -/
theorem readWhole_ofNat
    (value : Nat)
    {rest : List Char}
    (ends : EndsNumber rest) :
    readWhole (Number.ofNat value ++ rest) = some (Number.ofNat value, rest) := by
  by_cases zero : value = 0
  · subst zero
    have single : Number.ofNat 0 ++ rest = '0' :: rest := rfl
    rw [single]
    cases rest with
    | nil => rfl
    | cons c rest =>
        have notDigit := (ends c rfl).1
        simp only [readWhole, notDigit, Bool.false_eq_true, if_false]
        rfl
  · have notZero := Number.head?_ofNat_ne_zero (Nat.pos_of_ne_zero zero)
    have allDigits : ∀ c ∈ Number.ofNat value, c.isDigit = true :=
      fun c member => Number.isDigit_of_mem_ofNat member
    have digitsRead : readDigits (Number.ofNat value ++ rest) =
        some (Number.ofNat value, rest) := by
      rw [readDigits, span_isDigit_append allDigits ends]
      split
      · next same => exact absurd (congrArg Prod.fst same) (Number.ofNat_ne_nil value)
      · next same => rw [same]
    cases written : Number.ofNat value with
    | nil => exact absurd written (Number.ofNat_ne_nil value)
    | cons first others =>
        rw [written] at notZero digitsRead
        rw [List.cons_append] at digitsRead ⊢
        unfold readWhole
        split
        · next same =>
            cases same
            exact absurd rfl notZero
        · exact digitsRead

/-- The lexeme of a natural number is read as a whole. -/
theorem readNumber_ofNat
    (value : Nat)
    {rest : List Char}
    (ends : EndsNumber rest) :
    readNumber (Number.ofNat value ++ rest) = some (Number.ofNat value, rest) := by
  have unsigned : readUnsigned (Number.ofNat value ++ rest) =
      some (Number.ofNat value, rest) := by
    simp [readUnsigned, readWhole_ofNat value ends, readFraction_of_endsNumber ends,
      readExponent_of_endsNumber ends]
  unfold readNumber
  split
  · next rest' same =>
      cases written : Number.ofNat value with
      | nil => exact absurd written (Number.ofNat_ne_nil value)
      | cons first others =>
          rw [written] at same
          cases same
          have isDigit := Number.isDigit_of_mem_ofNat (written ▸ List.mem_cons_self)
          exact absurd isDigit (by decide)
  · exact unsigned

end Json
end GrammarCompiler
