import SprigCompiler.Proofs.Grammar.Exchange
import SprigCompiler.Proofs.Token.Lexemes

/-!
The two ways to write arguments, and their lexemes.

Arguments stand one behind the other with blanks between them, or between two delimiters with commas
between them.  The lexemes of a word depend on what follows it: `true` and `false` are booleans only
in front of a blank, a line break or the end of the text.
-/

namespace SprigCompiler

inductive Blank where
  | space
  | tab
  | newline
  | returnNewline
  deriving DecidableEq

def Blank.characters : Blank → List Char
  | space => [' ']
  | tab => ['\t']
  | newline => ['\n']
  | returnNewline => ['\r', '\n']

def gap (blanks : List Blank) : List Char := blanks.flatMap Blank.characters

structure Word where
  characters : List Char
  nonempty : characters ≠ []
  letters : ∀ character ∈ characters, Piece.isWordCharacter character = true
  free : Keyword.ofWord? (String.ofList characters) = none

def Word.isBoolean (word : Word) : Bool :=
  String.ofList word.characters = "true" ∨ String.ofList word.characters = "false"

inductive Argument where
  | word (name : Word)
  | number (sign digits : List Char) (isSign : sign ∈ [[], ['+'], ['-']]) (nonempty : digits ≠ [])
      (digital : ∀ character ∈ digits, Piece.isNumberCharacter character = true)
  | quoted (inside : List Char) (noQuote : '"' ∉ inside)

namespace Argument

def text : Argument → List Char
  | word name => name.characters
  | number sign digits _ _ _ => sign ++ digits
  | quoted inside _ => '"' :: (inside ++ ['"'])

def takes (next : Char) : Argument → Bool
  | word _ => Piece.isWordCharacter next
  | number _ _ _ _ _ => Piece.isNumberCharacter next
  | quoted _ _ => false

def isBoolean : Argument → Bool
  | word name => name.isBoolean
  | _ => false

def lexeme (finished : Bool) : Argument → Lexeme
  | word name => ⟨.ofWord (String.ofList name.characters) finished, String.ofList name.characters⟩
  | number sign digits _ _ _ => ⟨.number, String.ofList (sign ++ digits)⟩
  | quoted inside _ => ⟨.string, String.ofList inside⟩

end Argument

/-- An argument and the blanks around it: those in front of it in a row, at least one, and those on
either side of it between delimiters. -/
structure Written where
  argument : Argument
  blank : Blank
  blanks : List Blank
  left : List Blank
  right : List Blank

def juxtaposed : List Written → List Char
  | [] => []
  | written :: others =>
      gap (written.blank :: written.blanks) ++ (written.argument.text ++ juxtaposed others)

def Written.spaced (written : Written) : List Char :=
  gap written.left ++ (written.argument.text ++ gap written.right)

def separated : List Written → List Char
  | [] => []
  | [last] => last.spaced
  | written :: others => written.spaced ++ ',' :: separated others

def enclosed (opening closing : Char) (blanks : List Blank) (arguments : List Written) :
    List Char :=
  gap blanks ++ opening :: (separated arguments ++ [closing])

/-- Whether each `true` and `false` is finished in both ways of writing the arguments or in
neither. -/
def FinishedAlike (after : List Char) : List Written → Prop
  | [] => True
  | written :: others =>
      (written.argument.isBoolean = true →
        (written.right ≠ [] ↔ finishes (juxtaposed others ++ after) = true)) ∧
      FinishedAlike after others

def rowLexemes (after : List Char) : List Written → List Lexeme
  | [] => []
  | written :: others =>
      written.argument.lexeme (finishes (juxtaposed others ++ after)) :: rowLexemes after others

variable {first next : Char} {rest more after : List Char} {finished other : Bool}

theorem lexemes?_blank (isBlank : Piece.isBlankCharacter first = true) (more : List Char) :
    lexemes? (first :: more) = lexemes? (more.dropWhile Piece.isBlankCharacter) := by
  rw [lexemes?_cons, Piece.split_blank isBlank]
  exact Option.map_id'

theorem lexemes?_dropBlanks (text : List Char) :
    lexemes? (text.dropWhile Piece.isBlankCharacter) = lexemes? text := by
  cases text with
  | nil => rfl
  | cons first rest =>
      by_cases isBlank : Piece.isBlankCharacter first = true
      · rw [List.dropWhile_cons_of_pos isBlank, lexemes?_blank isBlank]
      · rw [List.dropWhile_cons_of_neg isBlank]

private theorem lexemes?_newline (more : List Char) : lexemes? ('\n' :: more) = lexemes? more := by
  rw [lexemes?_cons]
  exact Option.map_id'

private theorem lexemes?_returnNewline (more : List Char) :
    lexemes? ('\r' :: '\n' :: more) = lexemes? more := by
  rw [lexemes?_cons]
  exact Option.map_id'

private theorem lexemes?_gap (blanks : List Blank) (more : List Char) :
    lexemes? (gap blanks ++ more) = lexemes? more := by
  induction blanks with
  | nil => rfl
  | cons blank blanks inductionHypothesis =>
      unfold gap at inductionHypothesis ⊢
      rw [List.flatMap_cons, List.append_assoc]
      cases blank with
      | space =>
          have isBlank : Piece.isBlankCharacter ' ' = true := rfl
          have dropped := lexemes?_blank isBlank (blanks.flatMap Blank.characters ++ more)
          exact (dropped.trans (lexemes?_dropBlanks _)).trans inductionHypothesis
      | tab =>
          have isBlank : Piece.isBlankCharacter '\t' = true := rfl
          have dropped := lexemes?_blank isBlank (blanks.flatMap Blank.characters ++ more)
          exact (dropped.trans (lexemes?_dropBlanks _)).trans inductionHypothesis
      | newline => exact (lexemes?_newline _).trans inductionHypothesis
      | returnNewline => exact (lexemes?_returnNewline _).trans inductionHypothesis

private theorem finishes_gap {blanks : List Blank} (isEnd : finishes more = false) :
    finishes (gap blanks ++ more) = true ↔ blanks ≠ [] := by
  cases blanks with
  | nil =>
      constructor
      · intro isFinished
        rw [show gap [] ++ more = more from rfl, isEnd] at isFinished
        cases isFinished
      · intro nonempty
        exact absurd rfl nonempty
  | cons blank blanks =>
      constructor
      · intro _
        exact List.cons_ne_nil blank blanks
      · intro _
        cases blank <;> rfl

theorem lexemes?_word (word : Word)
    (stops : ∀ next ∈ more.head?, Piece.isWordCharacter next = false) :
    lexemes? (word.characters ++ more) =
      (lexemes? more).map
        (⟨.ofWord (String.ofList word.characters) (finishes more), String.ofList word.characters⟩ :: ·)
    := by
  obtain ⟨characters, nonempty, letters, free⟩ := word
  cases characters with
  | nil => exact absurd rfl nonempty
  | cons first rest =>
      have isWord := letters first List.mem_cons_self
      have tail := fun character isMember => letters character (List.mem_cons_of_mem _ isMember)
      rw [List.cons_append, lexemes?_cons, Piece.split_word isWord, Piece.run_eq .word tail stops]
      rfl

private theorem lexemes?_digits {digits : List Char} (nonempty : digits ≠ [])
    (digital : ∀ character ∈ digits, Piece.isNumberCharacter character = true)
    (stops : ∀ next ∈ more.head?, Piece.isNumberCharacter next = false) :
    lexemes? (digits ++ more) =
      (lexemes? more).map (⟨.number, String.ofList digits⟩ :: ·) := by
  cases digits with
  | nil => exact absurd rfl nonempty
  | cons first rest =>
      have isNumber := digital first List.mem_cons_self
      have tail := fun character isMember => digital character (List.mem_cons_of_mem _ isMember)
      rw [List.cons_append, lexemes?_cons, Piece.split_number isNumber,
        Piece.run_eq .number tail stops]
      rfl

private theorem lexemes?_signed {sign : Char} {kind : TokenKind} {digits : List Char}
    (signs : ∀ rest, Piece.split sign rest = Piece.signed kind rest) (nonempty : digits ≠ [])
    (digital : ∀ character ∈ digits, Piece.isNumberCharacter character = true)
    (stops : ∀ next ∈ more.head?, Piece.isNumberCharacter next = false) :
    lexemes? (sign :: (digits ++ more)) =
      (lexemes? more).map (⟨.number, String.ofList (sign :: digits)⟩ :: ·) := by
  have isNumber : Piece.signed kind (digits ++ more) =
      Piece.run .number Piece.isNumberCharacter (digits ++ more) := by
    cases digits with
    | nil => exact absurd rfl nonempty
    | cons first rest =>
        have startsNumber := digital first List.mem_cons_self
        simp only [List.cons_append, Piece.signed, startsNumber, if_true]
  rw [lexemes?_cons, signs, isNumber, Piece.run_eq .number digital stops]
  rfl

theorem lexemes?_quoted {inside : List Char} (noQuote : '"' ∉ inside) (more : List Char) :
    lexemes? ('"' :: (inside ++ '"' :: more)) =
      (lexemes? more).map (⟨.string, String.ofList inside⟩ :: ·) := by
  have isString : Piece.split '"' (inside ++ '"' :: more) = (.string, inside ++ ['"'], more) :=
    Piece.string_eq noQuote more
  have unquoted : (inside ++ ['"']).takeWhile (· ≠ '"') = inside := by
    refine Piece.takeWhile_append_of_all ?_ ?_
    · intro character isMember
      rw [decide_eq_true_eq]
      rintro rfl
      exact noQuote isMember
    · intro next isNext
      cases isNext
      rfl
  rw [lexemes?_cons, isString]
  simp only [lexemeOf?, Token.reading?, List.tail_cons, unquoted]
  rfl

private theorem lexemes?_argument (argument : Argument)
    (stops : ∀ next ∈ more.head?, argument.takes next = false) :
    lexemes? (argument.text ++ more) =
      (lexemes? more).map (argument.lexeme (finishes more) :: ·) := by
  cases argument with
  | word word => exact lexemes?_word word stops
  | number sign digits isSign nonempty digital =>
      simp only [List.mem_cons, List.not_mem_nil, or_false] at isSign
      unfold Argument.text Argument.lexeme
      rcases isSign with rfl | rfl | rfl
      · exact lexemes?_digits nonempty digital stops
      · exact lexemes?_signed (fun _ => rfl) nonempty digital stops
      · exact lexemes?_signed (fun _ => rfl) nonempty digital stops
  | quoted inside noQuote =>
      unfold Argument.text
      rw [List.cons_append, List.append_assoc]
      exact lexemes?_quoted noQuote more

def ending : List Char := [' ', '\t', '\n', '\r', '(', '<', ',', ')', '>']

theorem not_word_of_ending (ends : next ∈ ending) : Piece.isWordCharacter next = false := by
  have noWord : ending.any Piece.isWordCharacter = false := rfl
  exact Bool.not_eq_true _ ▸ List.any_eq_false.mp noWord next ends

private theorem Argument.takes_of_ending (argument : Argument) (ends : next ∈ ending) :
    argument.takes next = false := by
  have noNumber : ending.any Piece.isNumberCharacter = false := rfl
  cases argument with
  | word => exact not_word_of_ending ends
  | number => exact Bool.not_eq_true _ ▸ List.any_eq_false.mp noNumber next ends
  | quoted => rfl

theorem head?_gap {blanks : List Blank} {sign : Char} (ends : sign ∈ ending) :
    ∀ next ∈ (gap blanks ++ sign :: more).head?, next ∈ ending := by
  intro next isNext
  cases blanks with
  | nil =>
      cases isNext
      exact ends
  | cons blank blanks => cases blank <;> cases isNext <;> decide

theorem head?_juxtaposed (arguments : List Written) :
    arguments = [] ∨ ∀ next ∈ (juxtaposed arguments ++ after).head?, next ∈ ending := by
  cases arguments with
  | nil => exact .inl rfl
  | cons written others =>
      right
      intro next isNext
      obtain ⟨_, blank, _, _, _⟩ := written
      cases blank <;> cases isNext <;> decide

/-- A word that is neither reserved nor a boolean is a name, whatever follows it. -/
theorem Word.isName (word : Word) (noBoolean : word.isBoolean = false) (finished : Bool) :
    TokenKind.ofWord (String.ofList word.characters) finished = .identifier := by
  have differs : ¬(String.ofList word.characters = "true" ∨
      String.ofList word.characters = "false") := by
    simpa only [Word.isBoolean, decide_eq_false_iff_not] using noBoolean
  unfold TokenKind.ofWord
  rw [word.free]
  cases finished
  · rfl
  · exact if_neg differs

private theorem Argument.lexeme_eq (argument : Argument)
    (same : argument.isBoolean = true → finished = other) :
    argument.lexeme finished = argument.lexeme other := by
  cases argument with
  | number => rfl
  | quoted => rfl
  | word word =>
      by_cases isBoolean : word.isBoolean = true
      · rw [same isBoolean]
      · have isName := word.isName (Bool.not_eq_true _ ▸ isBoolean)
        simp only [Argument.lexeme, isName]

theorem lexemes?_juxtaposed {arguments : List Written}
    (ends : ∀ last ∈ arguments.getLast?, ∀ next ∈ after.head?, last.argument.takes next = false) :
    lexemes? (juxtaposed arguments ++ after) =
      (lexemes? after).map (rowLexemes after arguments ++ ·) := by
  induction arguments with
  | nil => exact Option.map_id'.symm
  | cons written others inductionHypothesis =>
      have endsOthers : ∀ last ∈ others.getLast?, ∀ next ∈ after.head?,
          last.argument.takes next = false := by
        intro last isLast
        apply ends last
        rw [List.getLast?_cons, Option.mem_def.mp isLast]
        rfl
      have stops : ∀ next ∈ (juxtaposed others ++ after).head?,
          written.argument.takes next = false := by
        rcases head?_juxtaposed others with rfl | isEnding
        · exact ends written rfl
        · intro next isNext
          exact written.argument.takes_of_ending (isEnding next isNext)
      unfold juxtaposed
      rw [List.append_assoc, List.append_assoc, lexemes?_gap, lexemes?_argument _ stops,
        inductionHypothesis endsOthers, Option.map_map]
      rfl

private theorem lexemes?_spaced (written : Written) {closing : Char}
    (ends : closing ∈ [',', ')', '>']) (more : List Char) :
    lexemes? (written.spaced ++ closing :: more) =
      (lexemes? (closing :: more)).map
        (written.argument.lexeme (decide (written.right ≠ [])) :: ·) := by
  have inEnding : closing ∈ ending := List.mem_append_right [' ', '\t', '\n', '\r', '(', '<'] ends
  have noEnd : finishes (closing :: more) = false := by
    simp only [List.mem_cons, List.not_mem_nil, or_false] at ends
    rcases ends with rfl | rfl | rfl <;> rfl
  have stops : ∀ next ∈ (gap written.right ++ closing :: more).head?,
      written.argument.takes next = false :=
    fun next isNext => written.argument.takes_of_ending (head?_gap inEnding next isNext)
  have isFinished : finishes (gap written.right ++ closing :: more) =
      decide (written.right ≠ []) := by
    rw [Bool.eq_iff_iff, finishes_gap noEnd, decide_eq_true_eq]
  unfold Written.spaced
  rw [List.append_assoc, List.append_assoc, lexemes?_gap, lexemes?_argument _ stops,
    lexemes?_gap, isFinished]

private theorem lexemes?_sign {sign : Char} {kind : TokenKind}
    (isSign : ∀ rest, Piece.split sign rest = (.sign kind, [], rest)) (more : List Char) :
    lexemes? (sign :: more) = (lexemes? more).map (⟨kind, String.ofList [sign]⟩ :: ·) := by
  rw [lexemes?_cons, isSign]
  rfl

private theorem lexemes?_separated {arguments : List Written} {closing : Char}
    (nonempty : arguments ≠ [])
    (ends : closing ∈ [')', '>']) (alike : FinishedAlike after arguments) (more : List Char) :
    lexemes? (separated arguments ++ closing :: more) =
      (lexemes? (closing :: more)).map
        ((rowLexemes after arguments).intersperse ⟨.comma, ","⟩ ++ ·) := by
  induction arguments with
  | nil => exact absurd rfl nonempty
  | cons written others inductionHypothesis =>
      have sameLexeme : written.argument.lexeme (decide (written.right ≠ [])) =
          written.argument.lexeme (finishes (juxtaposed others ++ after)) := by
        apply written.argument.lexeme_eq
        intro isBoolean
        rw [Bool.eq_iff_iff, decide_eq_true_eq]
        exact alike.1 isBoolean
      cases others with
      | nil =>
          have spaced := lexemes?_spaced written (List.mem_cons_of_mem ',' ends) more
          rw [sameLexeme] at spaced
          exact spaced
      | cons second others =>
          have isComma : ∀ rest, Piece.split ',' rest = (.sign .comma, [], rest) := fun _ => rfl
          have later := inductionHypothesis (List.cons_ne_nil _ _) alike.2
          unfold separated
          rw [List.append_assoc, List.cons_append, lexemes?_spaced written List.mem_cons_self _,
            sameLexeme, lexemes?_sign isComma, later, Option.map_map, Option.map_map]
          rfl

theorem lexemes?_enclosed {arguments : List Written} {opening closing : Char}
    {openingKind closingKind : TokenKind} (blanks : List Blank) (nonempty : arguments ≠ [])
    (starts : ∀ rest, Piece.split opening rest = (.sign openingKind, [], rest))
    (stops : ∀ rest, Piece.split closing rest = (.sign closingKind, [], rest))
    (ends : closing ∈ [')', '>']) (alike : FinishedAlike after arguments) :
    lexemes? (enclosed opening closing blanks arguments ++ after) =
      (lexemes? after).map
        (Grammar.delimited ⟨openingKind, String.ofList [opening]⟩
          ⟨closingKind, String.ofList [closing]⟩ (rowLexemes after arguments) ++ ·) := by
  have inside := lexemes?_separated nonempty ends alike after
  unfold enclosed Grammar.delimited
  rw [List.append_assoc, List.cons_append, List.append_assoc, lexemes?_gap, lexemes?_sign starts]
  rw [List.singleton_append, inside, lexemes?_sign stops, Option.map_map, Option.map_map]
  refine congrArg (Option.map · (lexemes? after)) ?_
  funext later
  simp only [Function.comp_apply, List.cons_append, List.append_assoc, List.nil_append]

private theorem Word.isAtom (word : Word) (finished : Bool) :
    (TokenKind.ofWord (String.ofList word.characters) finished).isAtom = true := by
  unfold TokenKind.ofWord
  rw [word.free]
  by_cases isBoolean : String.ofList word.characters = "true" ∨
      String.ofList word.characters = "false"
  · simp only [if_pos isBoolean]
    cases finished <;> rfl
  · simp only [if_neg isBoolean]
    cases finished <;> rfl

private theorem Argument.isAtom (argument : Argument) (finished : Bool) :
    (argument.lexeme finished).kind.isAtom = true := by
  cases argument with
  | word word => exact word.isAtom finished
  | number => rfl
  | quoted => rfl

theorem isAtom_of_mem_rowLexemes {arguments : List Written} {lexeme : Lexeme}
    (isMember : lexeme ∈ rowLexemes after arguments) : lexeme.kind.isAtom = true := by
  induction arguments with
  | nil => cases isMember
  | cons written others inductionHypothesis =>
      rcases List.mem_cons.mp isMember with rfl | isLater
      · exact written.argument.isAtom _
      · exact inductionHypothesis isLater

theorem rowLexemes_ne_nil {arguments : List Written} (nonempty : arguments ≠ []) :
    rowLexemes after arguments ≠ [] := by
  cases arguments with
  | nil => exact absurd rfl nonempty
  | cons written others => exact List.cons_ne_nil _ _

end SprigCompiler
