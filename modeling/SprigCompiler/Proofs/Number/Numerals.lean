import Mathlib.Data.List.TakeWhile
import SprigCompiler.Number.Shortest

/-!
Positional numerals and what they are read as.

Positional digits are a whole part without needless zeros in front and a fraction without zeros at
its end; the point stands only where there is a fraction.  Such a numeral is read as its digits,
taken together, scaled down by the length of the fraction.
-/

namespace SprigCompiler.Decimal

structure Numeral where
  whole : List Char
  fraction : List Char
  isDigit_whole : ∀ digit ∈ whole, digit.isDigit
  isDigit_fraction : ∀ digit ∈ fraction, digit.isDigit
  whole_ne_nil : whole ≠ []
  length_whole : whole.head? = some '0' → whole.length = 1

namespace Numeral

def text (numeral : Numeral) : List Char :=
  if numeral.fraction.isEmpty then numeral.whole else numeral.whole ++ '.' :: numeral.fraction

def coefficient (numeral : Numeral) : Nat := digitsValue (numeral.whole ++ numeral.fraction)

def zero : Numeral where
  whole := ['0']
  fraction := []
  isDigit_whole := List.all_eq_true.mp rfl
  isDigit_fraction := List.all_eq_true.mp rfl
  whole_ne_nil := List.cons_ne_nil _ _
  length_whole := fun _ => rfl

end Numeral

theorem digitsValue_eq (digits : List Char) : digitsValue digits = Nat.ofDigitChars 10 digits 0 :=
  rfl

private theorem digitsValue_toDigits (value : Nat) :
    digitsValue (Nat.toDigits 10 value) = value := by
  rw [digitsValue_eq, Nat.ofDigitChars_toDigits (by decide) (by decide)]

private theorem digitsValue_zeros_append (count : Nat) (digits : List Char) :
    digitsValue (List.replicate count '0' ++ digits) = digitsValue digits := by
  rw [digitsValue_eq, Nat.ofDigitChars_append, Nat.ofDigitChars_replicate_zero, Nat.mul_zero,
    digitsValue_eq]

private theorem digitsValue_append_zeros (digits : List Char) (count : Nat) :
    digitsValue (digits ++ List.replicate count '0') = digitsValue digits * tenTo count := by
  rw [digitsValue_eq, Nat.ofDigitChars_append, Nat.ofDigitChars_replicate_zero, Nat.mul_comm]
  rfl

/-- Digits above zero do not start with a zero. -/
theorem head?_toDigits {value : Nat} (isPositive : 0 < value) :
    (Nat.toDigits 10 value).head? ≠ some '0' := by
  induction value using Nat.strongRecOn with
  | ind value inductionHypothesis =>
      by_cases isDigit : value < 10
      · have isOther : ∀ value < 10, 0 < value → [Nat.digitChar value].head? ≠ some '0' := by decide
        rw [Nat.toDigits_of_lt_base isDigit]
        exact isOther value isDigit isPositive
      · have fewer := inductionHypothesis (value / 10) (by omega) (by omega)
        rw [Nat.toDigits_of_base_le (by decide) (by omega),
          List.head?_append]
        cases isFirst : (Nat.toDigits 10 (value / 10)).head? with
        | none => exact absurd (List.head?_eq_none_iff.mp isFirst) Nat.toDigits_ne_nil
        | some first =>
            rw [isFirst] at fewer
            exact fewer

/-- Positional digits are a numeral, and with its zeros at the end put back its digits are the
coefficient. -/
theorem exists_positional (coefficient places : Nat) : ∃ (numeral : Numeral) (zeros : Nat),
    positional coefficient places = numeral.text ∧ numeral.fraction.length + zeros = places ∧
      numeral.coefficient * tenTo zeros = coefficient := by
  let digits := Nat.toDigits 10 coefficient
  let padded := List.replicate (places + 1 - digits.length) '0' ++ digits
  let whole := padded.take (padded.length - places)
  let behind := padded.drop (padded.length - places)
  let fraction := (behind.reverse.dropWhile (· = '0')).reverse
  let zeros := (behind.reverse.takeWhile (· = '0')).length
  have digits_pos : 0 < digits.length := Nat.length_toDigits_pos
  have length_padded : padded.length = max (places + 1) digits.length := by
    simp only [padded, List.length_append, List.length_replicate]
    omega
  have isDigit_padded : ∀ digit ∈ padded, digit.isDigit := by
    intro digit isDigit
    rcases List.mem_append.mp isDigit with isZero | isDigit
    · rw [List.eq_of_mem_replicate isZero]
      decide
    · exact Nat.isDigit_of_mem_toDigits (by decide) (by decide) isDigit
  have behind_eq : behind = fraction ++ List.replicate zeros '0' := by
    have parts := congrArg List.reverse
      (@List.takeWhile_append_dropWhile _ (· = '0') behind.reverse)
    have isZeros : behind.reverse.takeWhile (· = '0') = List.replicate zeros '0' :=
      List.eq_replicate_of_mem fun digit isZero => by
        simpa using List.mem_takeWhile_imp isZero
    rw [List.reverse_append, List.reverse_reverse, isZeros, List.reverse_replicate] at parts
    exact parts.symm
  have padded_eq : padded = whole ++ (fraction ++ List.replicate zeros '0') := by
    rw [← behind_eq]
    exact (List.take_append_drop _ _).symm
  have length_behind : fraction.length + zeros = places := by
    have length_eq := congrArg List.length behind_eq
    simp only [behind, List.length_drop, List.length_append, List.length_replicate] at length_eq
    omega
  have length_whole : whole.length = padded.length - places := by
    simp only [whole, List.length_take]
    omega
  refine ⟨⟨whole, fraction,
    fun digit isDigit => isDigit_padded digit (List.mem_of_mem_take isDigit),
    fun digit isDigit => isDigit_padded digit ?_, ?_, fun isZero => ?_⟩, zeros, rfl,
    length_behind, ?_⟩
  · rw [padded_eq]
    exact List.mem_append_right _ (List.mem_append_left _ isDigit)
  · rw [← List.length_pos_iff, length_whole]
    omega
  · -- A zero in front is either filled in or the whole coefficient.
    by_cases isPadded : digits.length ≤ places
    · omega
    · have padded_digits : padded = digits := by
        simp only [padded, Nat.sub_eq_zero_of_le (show places + 1 ≤ digits.length by omega),
          List.replicate_zero, List.nil_append]
      have head_eq : digits.head? = some '0' := by
        rw [← padded_digits, padded_eq, List.head?_append, isZero]
        rfl
      have isNought : coefficient = 0 :=
        Nat.eq_zero_of_not_pos fun isPositive => head?_toDigits isPositive head_eq
      have length_digits : digits.length = 1 := by
        simp only [digits, isNought]
        rfl
      omega
  · change digitsValue (whole ++ fraction) * tenTo zeros = coefficient
    rw [← digitsValue_append_zeros, List.append_assoc, ← padded_eq, digitsValue_zeros_append,
      digitsValue_toDigits]

namespace Numeral

variable (numeral : Numeral)

theorem takeWhile_text : numeral.text.takeWhile Char.isDigit = numeral.whole := by
  unfold text
  split
  · rw [List.takeWhile_eq_self_iff]
    exact numeral.isDigit_whole
  · rw [List.takeWhile_append_of_pos numeral.isDigit_whole]
    exact List.append_nil _

theorem dropWhile_text : numeral.text.dropWhile Char.isDigit =
    if numeral.fraction.isEmpty then [] else '.' :: numeral.fraction := by
  unfold text
  split
  · rw [List.dropWhile_eq_nil_iff]
    exact numeral.isDigit_whole
  · rw [List.dropWhile_append_of_pos numeral.isDigit_whole]
    rfl

private theorem splitFraction_text :
    splitFraction (numeral.text.dropWhile Char.isDigit) = (numeral.fraction, []) := by
  rw [dropWhile_text]
  split
  · rename_i isEmpty
    rw [List.isEmpty_iff.mp isEmpty]
    rfl
  · have taken := List.takeWhile_eq_self_iff.mpr numeral.isDigit_fraction
    have dropped := List.dropWhile_eq_nil_iff.mpr numeral.isDigit_fraction
    exact Prod.ext taken dropped

/-- A numeral consists of digits and perhaps a point. -/
theorem digit_or_point {character : Char} (isMember : character ∈ numeral.text) :
    character.isDigit = true ∨ character = '.' := by
  unfold text at isMember
  split at isMember
  · exact Or.inl (numeral.isDigit_whole character isMember)
  · rcases List.mem_append.mp isMember with isWhole | isBehind
    · exact Or.inl (numeral.isDigit_whole character isWhole)
    · rcases List.mem_cons.mp isBehind with isPoint | isFraction
      · exact Or.inr isPoint
      · exact Or.inl (numeral.isDigit_fraction character isFraction)

/-- A numeral starts with a digit. -/
theorem exists_text : ∃ first rest, numeral.text = first :: rest ∧ first.isDigit := by
  obtain ⟨first, rest, whole_eq⟩ := List.exists_cons_of_ne_nil numeral.whole_ne_nil
  have isDigit := numeral.isDigit_whole first (by rw [whole_eq]; exact List.mem_cons_self)
  unfold text
  split
  · exact ⟨first, rest, whole_eq, isDigit⟩
  · exact ⟨first, rest ++ '.' :: numeral.fraction, by rw [whole_eq]; rfl, isDigit⟩

theorem readDigits?_text (negative : Bool) : readDigits? negative numeral.text =
    some (scale negative numeral.coefficient (-numeral.fraction.length)) := by
  have isWritten : (numeral.whole.isEmpty && numeral.fraction.isEmpty) = false := by
    rw [List.isEmpty_eq_false_iff.mpr numeral.whole_ne_nil, Bool.false_and]
  simp only [readDigits?, takeWhile_text, splitFraction_text, isWritten, exponent?,
    Bool.false_eq_true, if_false, Option.map_some, Int.zero_sub, coefficient]

theorem read?_signed (negative : Bool) : read? (signed negative numeral.text) =
    readDigits? negative numeral.text := by
  have unsigned : splitSign (signed negative numeral.text) = (negative, numeral.text) := by
    obtain ⟨first, rest, text_eq, isDigit⟩ := numeral.exists_text
    cases negative with
    | true => rfl
    | false =>
        rw [text_eq]
        unfold signed splitSign
        split
        · rename_i starts
          cases starts
          cases isDigit
        · rename_i starts
          cases starts
          cases isDigit
        · rfl
  simp only [read?, unsigned, readDigits?_text, Option.some_or]

end Numeral

end SprigCompiler.Decimal
