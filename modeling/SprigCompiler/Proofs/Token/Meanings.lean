import SprigCompiler.Proofs.Token.Spans

/-!
What tokens are written with.

Every token of a text is a piece of it that fits a pattern and means the token's lexeme.  So what a
token is written with follows from its kind, and the other way round.
-/

namespace SprigCompiler

/-- Whether a token stands in a text as a piece, with some characters, that means its lexeme. -/
structure Token.Written (token : Token) (content : String) (front inside behind : List Char) :
    Prop where
  covers : token.location.Covers content front inside behind
  means : ∃ kind finished, Pattern kind inside ∧ Means finished kind inside token.lexeme

variable {content : String} {tokens : List Token} {token : Token} {kind : PieceKind}
  {finished : Prop} {lexeme : Lexeme} {front text inside behind : List Char}
  {found : List (PieceKind × List Char)}

private theorem Tokenized.written (tokenized : Tokenized (.ofString content) front found tokens)
    (munched : Munched text found) (split : content.toList = front ++ text) :
    ∀ token ∈ tokens, ∃ front inside behind, token.Written content front inside behind := by
  induction tokenized generalizing text with
  | nothing => exact List.forall_mem_nil _
  | @skip front characters kind pieces tokens _ _ inductionHypothesis =>
      obtain ⟨rest, others, rfl⟩ : ∃ rest, Munched rest pieces ∧ text = characters ++ rest := by
        cases munched with
        | piece _ others => exact ⟨_, others, rfl⟩
        | stray _ others => exact ⟨_, others, rfl⟩
      exact inductionHypothesis others (by rw [split, List.append_assoc])
  | @token front characters kind pieces token tokens means located _ inductionHypothesis =>
      cases munched with
      | stray => cases means
      | @piece _ _ rest _ longest others =>
          have covers := covers_of_located split located
          refine List.forall_mem_cons.mpr ⟨⟨front, characters, rest, covers, ?_⟩,
            inductionHypothesis others (by rw [split, List.append_assoc])⟩
          exact ⟨kind, _, longest.fits, means⟩

theorem exists_written {strict : Bool} (read : Token.ofText? strict content = .ok tokens) :
    ∀ token ∈ tokens, ∃ front inside behind, token.Written content front inside behind :=
  (tokenized_of_ofText? read).written (munched_pieces _) rfl

namespace Means

theorem kind_ne (means : Means finished kind inside lexeme) :
    kind ≠ .blank ∧ kind ≠ .lineBreak := by
  cases means <;> exact ⟨nofun, nofun⟩

theorem noQuote (fits : Pattern kind inside) (means : Means finished kind inside lexeme)
    (isString : lexeme.kind = .string) : '"' ∉ lexeme.text.toList := by
  cases means with
  | openString noQuote =>
      change '"' ∉ (String.ofList _).toList
      rw [String.toList_ofList]
      exact noQuote
  | closedString noQuote =>
      change '"' ∉ (String.ofList _).toList
      rw [String.toList_ofList]
      exact noQuote
  | reserved isFinished isReserved =>
      exact absurd isString (plain_of_mem_reservedKinds isReserved).1
  | sign kind characters =>
      cases fits with
      | sign isSign => exact absurd isString (plain_of_mem_signs isSign).1
  | number | identifier => cases isString

theorem eq_openBrace (fits : Pattern kind inside) (means : Means finished kind inside lexeme)
    (isBrace : lexeme.kind = .openBrace) : inside = ['\x7b'] := by
  cases means with
  | openString | closedString | number | identifier => cases isBrace
  | @reserved _ other isFinished isReserved =>
      rw [show other = .openBrace from isBrace] at isReserved
      simp [reservedKinds] at isReserved
  | sign kind characters =>
      cases fits with
      | @sign character _ isSign =>
          rw [show kind = .openBrace from isBrace] at isSign
          simpa [signs] using isSign

/-- Only the word `main` is the keyword of main declarations. -/
theorem eq_main (fits : Pattern kind inside) (means : Means finished kind inside lexeme)
    (isMain : lexeme.kind = .keyword .mainWord) : inside = "main".toList := by
  cases means with
  | openString | closedString | number | identifier => cases isMain
  | @reserved _ other isFinished isReserved =>
      rw [show other = .keyword .mainWord from isMain] at isReserved
      have isWord : String.ofList inside = "main" := by simpa [reservedKinds] using isReserved
      rw [← isWord, String.toList_ofList]
  | sign kind characters =>
      cases fits with
      | @sign character _ isSign =>
          rw [show kind = .keyword .mainWord from isMain] at isSign
          simp [signs] at isSign

end Means

/-- No token starts with a newline or a carriage return. -/
theorem Pattern.exists_first (fits : Pattern kind inside)
    (noSpace : kind ≠ .blank ∧ kind ≠ .lineBreak) :
    ∃ first rest, inside = first :: rest ∧ first ≠ '\n' ∧ first ≠ '\r' := by
  cases fits with
  | openString | closedString => exact ⟨_, _, rfl, by decide, by decide⟩
  | @number sign digits signed nonempty numeric =>
      obtain ⟨first, rest, rfl⟩ := List.exists_cons_of_ne_nil nonempty
      have isNumeric := numeric first List.mem_cons_self
      simp only [List.mem_cons, List.not_mem_nil, or_false] at signed
      rcases signed with rfl | rfl | rfl
      · refine ⟨first, rest, rfl, ?_, ?_⟩
        all_goals
          rintro rfl
          revert isNumeric
          decide
      · exact ⟨_, _, rfl, by decide, by decide⟩
      · exact ⟨_, _, rfl, by decide, by decide⟩
  | @word letters nonempty alphabetic =>
      obtain ⟨first, rest, rfl⟩ := List.exists_cons_of_ne_nil nonempty
      have isAlphabetic := alphabetic first List.mem_cons_self
      refine ⟨first, rest, rfl, ?_, ?_⟩
      all_goals
        rintro rfl
        revert isAlphabetic
        decide
  | @sign character kind isSign =>
      refine ⟨character, [], rfl, ?_, ?_⟩
      all_goals
        rintro rfl
        simp [signs] at isSign
  | blank => exact absurd rfl noSpace.1
  | lineBreak => exact absurd rfl noSpace.2

end SprigCompiler
