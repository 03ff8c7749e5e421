import SprigCompiler.Proofs.Token.Lexemes

/-!
The characters of words and numbers.

A name is written with the characters of words, at least one of them, and a number with none.
-/

namespace SprigCompiler

def IsWord (name : String) : Prop :=
  name.toList ≠ [] ∧ ∀ character ∈ name.toList, Piece.isWordCharacter character = true

def Lexeme.Spelled (lexeme : Lexeme) : Prop :=
  (lexeme.kind = .identifier → IsWord lexeme.text) ∧
    (lexeme.kind = .number →
      ∀ character ∈ lexeme.text.toList, Piece.isWordCharacter character = false)

namespace Piece

variable {first : Char}

theorem not_word_of_number (isNumber : isNumberCharacter first = true) :
    isWordCharacter first = false := by
  rw [← Bool.not_eq_true]
  intro isWord
  rw [not_number_of_word isWord] at isNumber
  cases isNumber

private theorem ofSign?_ne {kind : TokenKind} (isSign : TokenKind.ofSign? first = some kind) :
    kind ≠ .identifier ∧ kind ≠ .number := by
  unfold TokenKind.ofSign? at isSign
  split at isSign
  all_goals cases isSign
  all_goals exact ⟨by decide, by decide⟩

def Spelled (kind : PieceKind) (characters : List Char) : Prop :=
  match kind with
  | .word => characters ≠ [] ∧ ∀ character ∈ characters, isWordCharacter character = true
  | .number => ∀ character ∈ characters, isWordCharacter character = false
  | .sign kind => kind ≠ .identifier ∧ kind ≠ .number
  | _ => True

private theorem spelled_number (characters : List Char) (isNumber : isWordCharacter first = false) :
    Spelled .number (first :: characters.takeWhile isNumberCharacter) := by
  intro character isPart
  rcases List.mem_cons.mp isPart with rfl | isLater
  · exact isNumber
  · exact not_word_of_number (List.mem_takeWhile_imp isLater)

private theorem spelled_signed {kind : TokenKind} (isSign : TokenKind.ofSign? first = some kind)
    (isNumber : isWordCharacter first = false) (rest : List Char) :
    Spelled (signed kind rest).1 (first :: (signed kind rest).2.1) := by
  unfold signed
  split
  · split
    · exact spelled_number _ isNumber
    · exact ofSign?_ne isSign
  · exact ofSign?_ne isSign

/-- Pieces are made of what their kinds say. -/
theorem spelled_split (first : Char) (rest : List Char) :
    Spelled (split first rest).1 (first :: (split first rest).2.1) := by
  unfold split
  split_ifs with isQuote isNumber isWord isBlank isNewline isReturn isPlus isMinus
  · rw [string_kind]
    trivial
  · exact spelled_number rest (not_word_of_number isNumber)
  · refine ⟨List.cons_ne_nil _ _, fun character isPart => ?_⟩
    rcases List.mem_cons.mp isPart with rfl | isLater
    · exact isWord
    · exact List.mem_takeWhile_imp isLater
  · trivial
  · trivial
  · unfold carriageReturn
    split
    · split <;> trivial
    · trivial
  · subst isPlus
    exact spelled_signed rfl rfl rest
  · subst isMinus
    exact spelled_signed rfl rfl rest
  · cases isSign : TokenKind.ofSign? first with
    | some kind => exact ofSign?_ne isSign
    | none => trivial

end Piece

/-- A word is a name, a keyword or a boolean, and no number. -/
theorem TokenKind.ofWord_ne_number (word : String) (finished : Bool) :
    TokenKind.ofWord word finished ≠ .number := by
  unfold TokenKind.ofWord
  split
  · split
    · exact TokenKind.noConfusion
    · split <;> exact TokenKind.noConfusion
  · exact TokenKind.noConfusion

private theorem spelled_lexemeOf? {finished : Bool} {kind : PieceKind} {characters : List Char}
    {lexeme : Lexeme} (spelled : Piece.Spelled kind characters)
    (isLexeme : lexemeOf? finished kind characters = some lexeme) : lexeme.Spelled := by
  cases kind with
  | word =>
      cases isLexeme
      refine ⟨fun _ => ?_, fun isNumber => absurd isNumber (TokenKind.ofWord_ne_number _ _)⟩
      change String.toList (String.ofList characters) ≠ [] ∧ ∀ character ∈ _, _
      rw [String.toList_ofList]
      exact spelled
  | number =>
      cases isLexeme
      refine ⟨fun isName => TokenKind.noConfusion isName, fun _ => ?_⟩
      change ∀ character ∈ String.toList (String.ofList characters), _
      rw [String.toList_ofList]
      exact spelled
  | sign kind =>
      cases isLexeme
      exact ⟨fun isName => absurd isName spelled.1, fun isNumber => absurd isNumber spelled.2⟩
  | string =>
      cases isLexeme
      exact ⟨fun isName => TokenKind.noConfusion isName, fun isNumber =>
        TokenKind.noConfusion isNumber⟩
  | blank => cases isLexeme
  | lineBreak => cases isLexeme
  | stray => cases isLexeme

/-- The lexemes of a text fit their kinds. -/
theorem spelled_of_lexemes? {text : List Char} {lexemes : List Lexeme}
    (isLexemes : lexemes? text = some lexemes) : ∀ lexeme ∈ lexemes, lexeme.Spelled := by
  induction text using Piece.split_induction generalizing lexemes with
  | nil =>
      rw [lexemes?_nil] at isLexemes
      cases isLexemes
      exact fun lexeme isMember => absurd isMember List.not_mem_nil
  | cons first rest inductionHypothesis =>
      rw [lexemes?_cons] at isLexemes
      split at isLexemes
      · cases isLexemes
      · obtain ⟨others, areOthers, rfl⟩ := Option.map_eq_some_iff.mp isLexemes
        intro lexeme isMember
        rcases List.mem_append.mp isMember with isFirst | isLater
        · rw [Option.mem_toList] at isFirst
          exact spelled_lexemeOf? (Piece.spelled_split first rest) isFirst
        · exact inductionHypothesis areOthers lexeme isLater

end SprigCompiler
