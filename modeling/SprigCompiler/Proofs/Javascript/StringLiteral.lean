import SprigCompiler.Text.Quoted

/-!
Reading string literals of JavaScript.

A literal is read character by character by the rules of strict mode for double quotes, with the
escapes of single letters, of code points between braces, and of zero where no digit follows.  A
quoted text is read back as the text, unless a null character stands directly in front of a digit:
its escape and the digit together are an octal escape, which strict mode forbids.
-/

namespace SprigCompiler.Javascript

/-- Where reading stands inside a literal: between two characters, behind a backslash, behind a
backslash and the letter `u`, or between the braces of a code point, with the value of its digits so
far if there are any. -/
inductive Reading where
  | plain
  | backslash
  | unicode
  | code (value : Option Nat)
  deriving DecidableEq

def hexDigit? (digit : Char) : Option Nat :=
  if digit.isDigit then some (digit.toNat - '0'.toNat)
  else if 'a' ≤ digit ∧ digit ≤ 'f' then some (digit.toNat - 'a'.toNat + 10)
  else if 'A' ≤ digit ∧ digit ≤ 'F' then some (digit.toNat - 'A'.toNat + 10)
  else none

def letterEscape? (letter : Char) : Option Char :=
  if letter = 't' then some '\t'
  else if letter = 'r' then some '\r'
  else if letter = 'n' then some '\n'
  else if letter = '\\' then some '\\'
  else if letter = '"' then some '"'
  else if letter = '\x27' then some '\x27'
  else none

def codeCharacter? (value : Option Nat) : Option Char :=
  value.bind fun code => if code.isValidChar then some (Char.ofNat code) else none

def startsWithDigit (text : List Char) : Bool := text.head?.any Char.isDigit

def withFirst (character : Char) (read : Option (List Char × List Char)) :
    Option (List Char × List Char) :=
  read.map fun found => (character :: found.1, found.2)

/-- Reads the inside of a literal and its closing quote: the characters that it stands for, and what
follows it. -/
def readInside? : Reading → List Char → Option (List Char × List Char)
  | _, [] => none
  | .plain, first :: rest =>
      if first = '"' then some ([], rest)
      else if first = '\\' then readInside? .backslash rest
      else if first = '\n' ∨ first = '\r' then none
      else withFirst first (readInside? .plain rest)
  | .backslash, first :: rest =>
      if first = 'u' then readInside? .unicode rest
      else if first = '0' then
        if startsWithDigit rest then none else withFirst '\x00' (readInside? .plain rest)
      else (letterEscape? first).bind fun character => withFirst character (readInside? .plain rest)
  | .unicode, first :: rest => if first = '\x7b' then readInside? (.code none) rest else none
  | .code value, first :: rest =>
      if first = '\x7d' then
        (codeCharacter? value).bind fun character => withFirst character (readInside? .plain rest)
      else (hexDigit? first).bind fun digit =>
        readInside? (.code (some (16 * value.getD 0 + digit))) rest

def readLiteral? : List Char → Option (List Char × List Char)
  | [] => none
  | first :: rest => if first = '"' then readInside? .plain rest else none

/-- Whether a null character stands directly in front of a digit that shows. -/
def nulBeforeDigit (hidden : Char → Bool) : List Char → Bool
  | [] => false
  | first :: rest =>
      first == '\x00' && rest.head?.any (fun next => next.isDigit && !hidden next) ||
        nulBeforeDigit hidden rest

variable {hidden : Char → Bool} {character letter : Char} {characters more rest : List Char}

private theorem hexDigit?_digitChar {digit : Nat} (isDigit : digit < 16) :
    hexDigit? digit.digitChar = some digit := by
  have all : ∀ digit : Fin 16, hexDigit? digit.val.digitChar = some digit.val := by decide
  exact all ⟨digit, isDigit⟩

private theorem readInside?_digit {digit : Nat} (value : Option Nat) (isDigit : digit < 16) :
    readInside? (.code value) (digit.digitChar :: more) =
      readInside? (.code (some (16 * value.getD 0 + digit))) more := by
  have noBrace : digit.digitChar ≠ '\x7d' := by
    intro isBrace
    have isHex := hexDigit?_digitChar isDigit
    rw [isBrace] at isHex
    cases isHex
  rw [readInside?, if_neg noBrace, hexDigit?_digitChar isDigit, Option.bind_some]

private theorem readInside?_digits (number : Nat) (more : List Char) :
    readInside? (.code none) (Nat.toDigits 16 number ++ more) =
      readInside? (.code (some number)) more := by
  induction number using Nat.strongRecOn generalizing more with
  | _ number inductionHypothesis =>
      by_cases isDigit : number < 16
      · rw [Nat.toDigits_of_lt_base isDigit, List.singleton_append, readInside?_digit none isDigit]
        rw [Option.getD_none, Nat.mul_zero, Nat.zero_add]
      -- All digits but the last are those of the number without it.
      · have split := Nat.toDigits_of_base_le (by omega : 1 < 16) (by omega : 16 ≤ number)
        have isLast : number % 16 < 16 := Nat.mod_lt _ (by omega)
        have isFirst : number / 16 < number := by omega
        have whole : 16 * (number / 16) + number % 16 = number := Nat.div_add_mod number 16
        rw [split, List.append_assoc, inductionHypothesis _ isFirst, List.singleton_append,
          readInside?_digit _ isLast, Option.getD_some, whole]

theorem digit_of_mem_toDigits {digit : Char} (number : Nat)
    (isMember : digit ∈ Nat.toDigits 16 number) : ∃ value < 16, digit = value.digitChar := by
  induction number using Nat.strongRecOn with
  | _ number inductionHypothesis =>
      by_cases isDigit : number < 16
      · rw [Nat.toDigits_of_lt_base isDigit, List.mem_singleton] at isMember
        exact ⟨number, isDigit, isMember⟩
      · rw [Nat.toDigits_of_base_le (by omega) (by omega), List.mem_append,
          List.mem_singleton] at isMember
        rcases isMember with isEarlier | isLast
        · exact inductionHypothesis (number / 16) (by omega) isEarlier
        · exact ⟨number % 16, Nat.mod_lt _ (by omega), isLast⟩

private theorem codeCharacter?_toNat (character : Char) :
    codeCharacter? (some character.toNat) = some character := by
  have isValid : character.toNat.isValidChar := character.valid
  unfold codeCharacter?
  rw [Option.bind_some, if_pos isValid, Char.ofNat_toNat]

private theorem readInside?_codeEscape (character : Char) (more : List Char) :
    readInside? .plain (Quoted.codeEscape character ++ more) =
      withFirst character (readInside? .plain more) := by
  have opened : readInside? .plain (Quoted.codeEscape character ++ more) =
      readInside? (.code none) (Nat.toDigits 16 character.toNat ++ '\x7d' :: more) := by
    unfold Quoted.codeEscape
    simp only [List.cons_append, List.append_assoc, List.nil_append]
    rfl
  rw [opened, readInside?_digits, readInside?, if_pos rfl, codeCharacter?_toNat, Option.bind_some]

private theorem readInside?_raw (noEscape : Quoted.shortEscape? '"' character = none)
    (more : List Char) :
    readInside? .plain (character :: more) = withFirst character (readInside? .plain more) := by
  have noQuote : character ≠ '"' := by
    rintro rfl
    cases noEscape
  have noBackslash : character ≠ '\\' := by
    rintro rfl
    cases noEscape
  have noBreak : ¬(character = '\n' ∨ character = '\r') := by
    rintro (rfl | rfl) <;> cases noEscape
  rw [readInside?, if_neg noQuote, if_neg noBackslash, if_neg noBreak]

/-- Each letter behind a backslash stands for its character; only the digit zero does so under a
condition. -/
theorem letter_of_shortEscape (hasEscape : Quoted.shortEscape? '"' character = some letter) :
    character = '\x00' ∧ letter = '0' ∨
      character ≠ '\x00' ∧ letter ∉ ['u', '0'] ∧ letterEscape? letter = some character := by
  unfold Quoted.shortEscape? at hasEscape
  by_cases isTab : character = '\t'
  · subst isTab
    cases hasEscape
    exact .inr (by decide)
  by_cases isReturn : character = '\r'
  · subst isReturn
    cases hasEscape
    exact .inr (by decide)
  by_cases isNewline : character = '\n'
  · subst isNewline
    cases hasEscape
    exact .inr (by decide)
  by_cases isNul : character.toNat = 0
  · rw [if_neg isTab, if_neg isReturn, if_neg isNewline, if_pos isNul] at hasEscape
    cases hasEscape
    exact .inl ⟨Char.toNat_inj.mp isNul, rfl⟩
  by_cases isBackslash : character = '\\'
  · subst isBackslash
    cases hasEscape
    exact .inr (by decide)
  by_cases isQuote : character = '"'
  · subst isQuote
    cases hasEscape
    exact .inr (by decide)
  rw [if_neg isTab, if_neg isReturn, if_neg isNewline, if_neg isNul, if_neg isBackslash,
    if_neg isQuote] at hasEscape
  cases hasEscape

private theorem readInside?_short (hasEscape : Quoted.shortEscape? '"' character = some letter)
    (more : List Char) :
    readInside? .plain ('\\' :: letter :: more) =
      if character = '\x00' ∧ startsWithDigit more = true then none
      else withFirst character (readInside? .plain more) := by
  have behind : readInside? .plain ('\\' :: letter :: more) =
      readInside? .backslash (letter :: more) := rfl
  rw [behind, readInside?]
  rcases letter_of_shortEscape hasEscape with ⟨rfl, rfl⟩ | ⟨noNul, plain, isLetter⟩
  · rw [if_neg (by decide), if_pos rfl]
    by_cases isDigit : startsWithDigit more = true
    · rw [if_pos isDigit, if_pos ⟨rfl, isDigit⟩]
    · rw [if_neg isDigit, if_neg fun both => isDigit both.2]
  · have noU : letter ≠ 'u' := fun isU => plain (by simp [isU])
    have noZero : letter ≠ '0' := fun isZero => plain (by simp [isZero])
    rw [if_neg noU, if_neg noZero, isLetter, Option.bind_some, if_neg fun both => noNul both.1]

/-- A written character is read back, unless it is a null character in front of a digit. -/
theorem readInside?_escape (hidden : Char → Bool) (character : Char) (more : List Char) :
    readInside? .plain (Quoted.escape hidden '"' character ++ more) =
      if character = '\x00' ∧ startsWithDigit more = true then none
      else withFirst character (readInside? .plain more) := by
  unfold Quoted.escape
  cases found : Quoted.shortEscape? '"' character with
  | some letter => exact readInside?_short found more
  | none =>
      have noNul : ¬(character = '\x00' ∧ startsWithDigit more = true) := by
        rintro ⟨rfl, _⟩
        cases found
      rw [if_neg noNul]
      by_cases isHidden : hidden character = true
      · simp only [isHidden, if_true]
        exact readInside?_codeEscape character more
      · simp only [isHidden]
        exact readInside?_raw found more

private theorem shortEscape?_of_isDigit (isDigit : character.isDigit = true) :
    Quoted.shortEscape? '"' character = none := by
  have differs : ∀ other : Char, other.isDigit = false → character ≠ other := by
    rintro other noDigit rfl
    rw [isDigit] at noDigit
    cases noDigit
  have noNul : character.toNat ≠ 0 := by
    have bounds := Char.isDigit_iff_toNat.mp isDigit
    have isLate : 48 ≤ character.toNat := bounds.1
    omega
  unfold Quoted.shortEscape?
  rw [if_neg (differs _ rfl), if_neg (differs _ rfl), if_neg (differs _ rfl), if_neg noNul,
    if_neg (differs _ rfl), if_neg (differs _ rfl)]

private theorem startsWithDigit_escape (hidden : Char → Bool) (character : Char)
    (more : List Char) :
    startsWithDigit (Quoted.escape hidden '"' character ++ more) =
      (character.isDigit && !hidden character) := by
  unfold Quoted.escape
  cases found : Quoted.shortEscape? '"' character with
  | some letter =>
      have noDigit : character.isDigit = false := by
        rw [← Bool.not_eq_true]
        intro isDigit
        rw [shortEscape?_of_isDigit isDigit] at found
        cases found
      rw [noDigit]
      rfl
  | none =>
      by_cases isHidden : hidden character = true
      · simp only [isHidden, if_true]
        exact (Bool.and_false _).symm
      · simp only [isHidden]
        exact (Bool.and_true _).symm

private theorem startsWithDigit_inside (hidden : Char → Bool) (characters more : List Char) :
    startsWithDigit (characters.flatMap (Quoted.escape hidden '"') ++ '"' :: more) =
      characters.head?.any fun next => next.isDigit && !hidden next := by
  cases characters with
  | nil => rfl
  | cons first rest =>
      rw [List.flatMap_cons, List.append_assoc, startsWithDigit_escape]
      rfl

/-- A quoted text is read back as the text, up to its closing quote, unless a null character in it
stands directly in front of a digit. -/
theorem readInside?_flatMap (hidden : Char → Bool) (characters more : List Char) :
    readInside? .plain (characters.flatMap (Quoted.escape hidden '"') ++ '"' :: more) =
      if nulBeforeDigit hidden characters then none else some (characters, more) := by
  induction characters with
  | nil => rfl
  | cons first rest inductionHypothesis =>
      rw [List.flatMap_cons, List.append_assoc, readInside?_escape, startsWithDigit_inside,
        inductionHypothesis]
      rw [nulBeforeDigit]
      by_cases isNul : first = '\x00'
      · cases rest.head?.any fun next => next.isDigit && !hidden next <;>
          cases nulBeforeDigit hidden rest <;> simp [isNul, withFirst]
      · rw [if_neg fun both => isNul both.1, beq_false_of_ne isNul, Bool.false_and, Bool.false_or]
        cases nulBeforeDigit hidden rest <;> rfl

/-- A quoted text is a literal with the value of the text, up to its last character, unless a null
character in the text stands directly in front of a digit. -/
theorem readLiteral?_enclose (hidden : Char → Bool) (characters more : List Char) :
    readLiteral? (Quoted.enclose hidden '"' characters ++ more) =
      if nulBeforeDigit hidden characters then none else some (characters, more) := by
  unfold Quoted.enclose readLiteral?
  rw [List.cons_append, List.append_assoc, List.singleton_append]
  exact readInside?_flatMap hidden characters more

end SprigCompiler.Javascript
