import SprigCompiler.Proofs.Number.Numerals
import SprigCompiler.Proofs.Token.Pieces

/-!
Tokens of JavaScript.

A text is cut from left to right.  Each token is the longest start of the rest that is a name or
word, a numeral, a string or one of the punctuators, so that two signs in a row are one token
whenever there is one that starts with both.  A slash is read as division; it only ever stands
behind an operand here.  Texts with comments, templates, numerals other than positional decimal
ones, question marks or characters beyond these tokens are not read.
-/

namespace SprigCompiler.Javascript

inductive Token where
  | word (text : List Char)
  | numeral (text : List Char)
  | string (text : List Char)
  | sign (text : List Char)
  deriving DecidableEq, Repr

def startsWord (character : Char) : Bool :=
  character.isAlpha || character == '_' || character == '$'

def isWordPart (character : Char) : Bool := startsWord character || character.isDigit

/-- The characters that cannot stand directly behind a numeral, or belong to it. -/
def isNumeralPart (character : Char) : Bool := isWordPart character || character == '.'

def isBlank (character : Char) : Bool := [' ', '\t', '\n', '\r'].contains character

/-- Whether digits may stand in front of a point: no zero in front of other digits. -/
def isWhole (digits : List Char) : Bool := digits.head? != some '0' || digits.length == 1

def isNumeral (text : List Char) : Bool :=
  let whole := text.takeWhile Char.isDigit
  let fraction := (text.dropWhile Char.isDigit).tail
  isWhole whole && fraction.all Char.isDigit && !(whole.isEmpty && fraction.isEmpty) &&
    (text.dropWhile Char.isDigit).head?.all (· == '.')

/-- The characters up to the closing quote of a string, and what follows it, where `escaped` says
that a backslash stands in front.  A line must not end inside. -/
def insideString? (quote : Char) (escaped : Bool) : List Char → Option (List Char × List Char)
  | [] => none
  | first :: rest =>
      if first = quote ∧ escaped = false then some ([], rest)
      else if first = '\n' ∨ first = '\r' then none
      else (insideString? quote (first == '\\' && !escaped) rest).map fun found =>
        (first :: found.1, found.2)

def punctuators : List (List Char) :=
  [">>>=",
    "...", "===", "!==", "**=", "<<=", ">>=", ">>>", "&&=", "||=",
    "<=", ">=", "==", "!=", "**", "++", "--", "<<", ">>", "&&", "||", "+=", "-=", "*=", "/=", "%=",
    "&=", "|=", "^=", "=>",
    "\x7b", "\x7d", "(", ")", "[", "]", ".", ";", ",", "<", ">", "+", "-", "*", "/", "%", "&", "|",
    "^", "!", "~", ":", "="].map String.toList

def punctuator? (text : List Char) : Option (List Char) := punctuators.find? (·.isPrefixOf text)

/-- The token with which a text starts, none if it starts with a blank, and the rest of the text. -/
def token? (first : Char) (rest : List Char) : Option (Option Token × List Char) :=
  if isBlank first then some (none, rest)
  else if startsWord first then
    some (some (.word (first :: rest.takeWhile isWordPart)), rest.dropWhile isWordPart)
  else if first.isDigit || first == '.' && rest.head?.any Char.isDigit then
    if isNumeral (first :: rest.takeWhile isNumeralPart) then
      some (some (.numeral (first :: rest.takeWhile isNumeralPart)), rest.dropWhile isNumeralPart)
    else none
  else if first = '"' ∨ first = '\x27' then
    (insideString? first false rest).map fun found =>
      (some (.string (first :: (found.1 ++ [first]))), found.2)
  else if first = '/' ∧ (rest.head? = some '/' ∨ rest.head? = some '*') then none
  else (punctuator? (first :: rest)).map fun sign =>
    (some (.sign sign), rest.drop (sign.length - 1))

private theorem length_insideString?_le {quote : Char} {text : List Char} {escaped : Bool}
    {found : List Char × List Char} (isFound : insideString? quote escaped text = some found) :
    found.2.length ≤ text.length := by
  induction text generalizing escaped found with
  | nil => cases isFound
  | cons first rest inductionHypothesis =>
      unfold insideString? at isFound
      split_ifs at isFound with closes ends
      · cases isFound
        exact Nat.le_succ _
      · obtain ⟨more, isMore, rfl⟩ := Option.map_eq_some_iff.mp isFound
        exact Nat.le_succ_of_le (@inductionHypothesis _ more isMore)

/-- The rest behind a token is no longer than what followed the token's first character. -/
theorem length_token?_le {first : Char} {rest : List Char} {found : Option Token × List Char}
    (isFound : token? first rest = some found) : found.2.length ≤ rest.length := by
  unfold token? at isFound
  split_ifs at isFound with isBlank isWord isNumber isNumeral isQuote
  · cases isFound
    exact Nat.le_refl _
  · cases isFound
    exact (List.dropWhile_suffix _).length_le
  · cases isFound
    exact (List.dropWhile_suffix _).length_le
  · obtain ⟨more, isMore, rfl⟩ := Option.map_eq_some_iff.mp isFound
    exact length_insideString?_le isMore
  · obtain ⟨sign, _, rfl⟩ := Option.map_eq_some_iff.mp isFound
    exact (List.drop_suffix _ _).length_le

def tokens? : List Char → Option (List Token)
  | [] => some []
  | first :: rest =>
      match _ : token? first rest with
      | none => none
      | some (token, more) => (tokens? more).map (token.toList ++ ·)
termination_by text => text.length
decreasing_by
  have shorter := length_token?_le ‹_›
  simp only [List.length_cons] at shorter ⊢
  omega

section Tokens

variable {first : Char} {rest : List Char}

private theorem tokens?_nil : tokens? [] = some [] := by
  rw [tokens?]

theorem tokens?_cons {token : Option Token} {more : List Char}
    (isToken : token? first rest = some (token, more)) :
    tokens? (first :: rest) = (tokens? more).map (token.toList ++ ·) := by
  rw [tokens?]
  split
  · rename_i isNone
    rw [isToken] at isNone
    cases isNone
  · rename_i isSome
    rw [isToken] at isSome
    cases isSome
    rfl

end Tokens

/-- Whether a token that ends with a letter, a digit or a point ends in front of a text. -/
def Breaks (text : List Char) : Prop := ∀ next ∈ text.head?, isNumeralPart next = false

/-- Whether a text has some tokens wherever it stands in front of another one that breaks. -/
def Lexes (text : List Char) (tokens : List Token) : Prop :=
  ∀ more, Breaks more → tokens? (text ++ more) = (tokens? more).map (tokens ++ ·)

def Separates (text : List Char) (tokens : List Token) : Prop :=
  ∀ more, tokens? (text ++ more) = (tokens? more).map (tokens ++ ·)

section Parts

variable {text others : List Char} {tokens behind : List Token}

theorem breaks_cons {next : Char} (isOutside : isNumeralPart next = false) (more : List Char) :
    Breaks (next :: more) := by
  rintro _ ⟨⟩
  exact isOutside

theorem Breaks.takeWhile {more : List Char} {isPart : Char → Bool} (breaks : Breaks more)
    (isAll : ∀ character, isPart character → isNumeralPart character) :
    more.takeWhile isPart = [] ∧ more.dropWhile isPart = more := by
  cases more with
  | nil => exact ⟨rfl, rfl⟩
  | cons next more =>
      have isOutside : ¬ isPart next := fun isPart => by
        have isInside := isAll next isPart
        rw [breaks next rfl] at isInside
        exact Bool.noConfusion isInside
      exact ⟨List.takeWhile_cons_of_neg isOutside, List.dropWhile_cons_of_neg isOutside⟩

theorem Lexes.tokens?_eq (lexes : Lexes text tokens) : tokens? text = some tokens := by
  have isWhole := lexes [] (by simp [Breaks])
  rw [List.append_nil, tokens?_nil, Option.map_some, List.append_nil] at isWhole
  exact isWhole

theorem Lexes.nil : Lexes [] [] := fun more _ => by simp

theorem Separates.lexes (separates : Separates text tokens) : Lexes text tokens :=
  fun more _ => separates more

theorem Separates.append (first : Separates text tokens) (second : Lexes others behind) :
    Lexes (text ++ others) (tokens ++ behind) := by
  intro more breaks
  rw [List.append_assoc, first, second more breaks, Option.map_map]
  simp only [Function.comp_def, List.append_assoc]

theorem Lexes.append (first : Lexes text tokens) (breaks : Breaks others)
    (second : Lexes others behind) : Lexes (text ++ others) (tokens ++ behind) := by
  intro more breaksBehind
  have breaksBetween : Breaks (others ++ more) := by
    cases others with
    | nil => exact breaksBehind
    | cons next others => exact breaks
  rw [List.append_assoc, first _ breaksBetween, second more breaksBehind, Option.map_map]
  simp only [Function.comp_def, List.append_assoc]

theorem Separates.trans (first : Separates text tokens) (second : Separates others behind) :
    Separates (text ++ others) (tokens ++ behind) := by
  intro more
  rw [List.append_assoc, first, second, Option.map_map]
  simp only [Function.comp_def, List.append_assoc]

theorem Lexes.closed {next : Char} (first : Lexes text tokens)
    (isOutside : isNumeralPart next = false) (second : Separates (next :: others) behind) :
    Separates (text ++ next :: others) (tokens ++ behind) := by
  intro more
  have isRest := second more
  rw [List.cons_append] at isRest
  rw [List.append_assoc, List.cons_append, first _ (breaks_cons isOutside _), isRest,
    Option.map_map]
  simp only [Function.comp_def, List.append_assoc]

end Parts

section Tokens

variable {first : Char} {rest : List Char}

private theorem startsWord_of_isDigit (isDigit : first.isDigit) : startsWord first = false := by
  have bounds := Char.isDigit_iff_toNat.mp isDigit
  have isEarly : first.toNat ≤ 57 := bounds.2
  rw [← Bool.not_eq_true]
  intro starts
  rcases Bool.or_eq_true_iff.mp starts with starts | isDollar
  · rcases Bool.or_eq_true_iff.mp starts with isAlpha | isScore
    · have isLate := Piece.toNat_of_isAlpha isAlpha
      omega
    · rw [beq_iff_eq.mp isScore] at isDigit
      cases isDigit
  · rw [beq_iff_eq.mp isDollar] at isDigit
    cases isDigit

theorem isBlank_of_isWordPart (isPart : isWordPart first) : isBlank first = false := by
  rw [← Bool.not_eq_true]
  intro isBlank
  simp only [Javascript.isBlank, List.contains_iff_mem, List.mem_cons, List.not_mem_nil,
    or_false] at isBlank
  rcases isBlank with rfl | rfl | rfl | rfl <;> cases isPart

theorem tokens?_blank : tokens? (' ' :: rest) = tokens? rest := by
  rw [tokens?_cons (show token? ' ' rest = some (none, rest) from rfl)]
  exact Option.map_id'

theorem separates_blank : Separates [' '] [] := fun _ => tokens?_blank.trans Option.map_id'.symm

theorem separates_newline : Separates ['\n'] [] := fun more => by
  rw [List.singleton_append, tokens?_cons (show token? '\n' more = some (none, more) from rfl)]
  rfl

/-- A sign that starts no longer one is one token. -/
theorem separates_sign {sign : List Char}
    (isToken : ∀ more, token? first more = some (some (.sign sign), more)) :
    Separates [first] [.sign sign] := fun more => tokens?_cons (isToken more)

/-- A minus is a token of its own in front of a character with which it makes no longer sign. -/
theorem token?_minus (noMinus : first ≠ '-') (noEquals : first ≠ '=') :
    token? '-' (first :: rest) = some (some (.sign ['-']), first :: rest) := by
  have isSign : punctuator? ('-' :: first :: rest) = some ['-'] := by
    simp [punctuator?, punctuators, List.find?, List.isPrefixOf, beq_false_of_ne noMinus.symm,
      beq_false_of_ne noEquals.symm]
  change (punctuator? ('-' :: first :: rest)).map _ = _
  rw [isSign]
  rfl

theorem lexes_word (starts : startsWord first) (isWord : ∀ part ∈ rest, isWordPart part) :
    Lexes (first :: rest) [.word (first :: rest)] := by
  intro more breaks
  obtain ⟨taken, dropped⟩ := @Breaks.takeWhile more isWordPart breaks fun part isPart => by
    rw [isNumeralPart, isPart, Bool.true_or]
  have notBlank : isBlank first = false :=
    isBlank_of_isWordPart (by rw [isWordPart, starts, Bool.true_or])
  have isToken : token? first (rest ++ more) = some (some (.word (first :: rest)), more) := by
    rw [token?, notBlank, if_neg Bool.false_ne_true, if_pos starts,
      List.takeWhile_append_of_pos isWord, List.dropWhile_append_of_pos isWord, taken, dropped,
      List.append_nil]
  rw [List.cons_append, tokens?_cons isToken]
  rfl

end Tokens

section Numerals

variable (numeral : Decimal.Numeral)

private theorem isNumeralPart_text : ∀ part ∈ numeral.text, isNumeralPart part := by
  intro part isPart
  rcases numeral.digit_or_point isPart with isDigit | rfl
  · rw [isNumeralPart, isWordPart, isDigit, Bool.or_true, Bool.true_or]
  · rfl

private theorem isNumeral_text : isNumeral numeral.text := by
  have isWhole : isWhole numeral.whole := by
    unfold Javascript.isWhole
    by_cases isZero : numeral.whole.head? = some '0'
    · rw [numeral.length_whole isZero]
      exact Bool.or_true _
    · rw [bne_iff_ne.mpr isZero, Bool.true_or]
  have isWritten : numeral.whole.isEmpty = false :=
    List.isEmpty_eq_false_iff.mpr numeral.whole_ne_nil
  unfold isNumeral
  dsimp only
  rw [numeral.takeWhile_text, numeral.dropWhile_text, isWhole, isWritten]
  split
  · rfl
  · have isFraction := List.all_eq_true.mpr numeral.isDigit_fraction
    simp only [List.tail_cons, isFraction]
    rfl

theorem lexes_numeral : Lexes numeral.text [.numeral numeral.text] := by
  intro more breaks
  obtain ⟨taken, dropped⟩ := @Breaks.takeWhile more isNumeralPart breaks fun _ isPart => isPart
  obtain ⟨first, rest, text_eq, isDigit⟩ := numeral.exists_text
  have isParts := isNumeralPart_text numeral
  have isNumeral := isNumeral_text numeral
  rw [text_eq] at isParts isNumeral ⊢
  have isRest : ∀ part ∈ rest, isNumeralPart part :=
    fun part isPart => isParts part (List.mem_cons_of_mem _ isPart)
  have notBlank : isBlank first = false :=
    isBlank_of_isWordPart (by rw [isWordPart, isDigit, Bool.or_true])
  have isToken : token? first (rest ++ more) = some (some (.numeral (first :: rest)), more) := by
    rw [token?, notBlank, startsWord_of_isDigit isDigit, isDigit,
      List.takeWhile_append_of_pos isRest, List.dropWhile_append_of_pos isRest, taken, dropped,
      List.append_nil, isNumeral]
    rfl
  rw [List.cons_append, tokens?_cons isToken]
  rfl

/-- A minus in front of a numeral is a token of its own. -/
theorem lexes_minus : Lexes ('-' :: numeral.text) [.sign ['-'], .numeral numeral.text] := by
  intro more breaks
  obtain ⟨first, rest, text_eq, isDigit⟩ := numeral.exists_text
  have isNumeral := lexes_numeral numeral more breaks
  rw [text_eq] at isNumeral ⊢
  have isToken := @token?_minus first (rest ++ more) (Piece.ne_of_condition isDigit rfl)
    (Piece.ne_of_condition isDigit rfl)
  rw [List.cons_append, List.cons_append, tokens?_cons isToken]
  rw [List.cons_append] at isNumeral
  rw [isNumeral, Option.map_map]
  rfl

end Numerals

end SprigCompiler.Javascript
