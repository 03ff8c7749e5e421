import SprigCompiler.Proofs.Token.Scanning
import SprigCompiler.Proofs.Token.Writings

/-!
Tokens written down and read again.

With one space between them, tokens are read as they were, but that every word is now finished: a
name with a reserved text becomes what it is reserved for.  Once is enough: after that nothing
changes any more.
-/

namespace SprigCompiler

namespace Token

def written (token : Token) : String :=
  if token.kind = .string then "\"" ++ token.text ++ "\"" else token.text

def printed (tokens : List Token) : String := " ".intercalate (tokens.map written)

/-- Whether a token is a name whose text is a reserved word. -/
def IsReservedName (token : Token) : Prop :=
  token.kind = .identifier ∧ token.text ∈ reservedKinds.map Prod.fst

/-- What reading a token again may change: a name whose text is a reserved word becomes what that is
reserved for, and otherwise kind and text stay. -/
def Settles (token other : Token) : Prop :=
  other.text = token.text ∧
    (token.IsReservedName ∧ (token.text, other.kind) ∈ reservedKinds ∨
      ¬token.IsReservedName ∧ other.kind = token.kind)

end Token

def Lexeme.settled (lexeme : Lexeme) : Lexeme :=
  if lexeme.kind = .identifier then ⟨.ofWord lexeme.text true, lexeme.text⟩ else lexeme

variable {kind : PieceKind} {first : Char} {inside more : List Char}

private theorem ofWord_of_mem {word : String} {kind : TokenKind}
    (isReserved : (word, kind) ∈ reservedKinds) : TokenKind.ofWord word true = kind := by
  simp only [reservedKinds, List.mem_cons, Prod.mk.injEq, List.not_mem_nil, or_false] at isReserved
  rcases isReserved with h | h | h | h | h | h | h | h
  all_goals
    obtain ⟨rfl, rfl⟩ := h
    rfl

private theorem isReservedName_iff {token : Token} :
    token.IsReservedName ↔
      token.kind = .identifier ∧ ∃ kind, (token.text, kind) ∈ reservedKinds := by
  simp only [Token.IsReservedName, List.mem_map, Prod.exists, exists_and_right, exists_eq_right]

theorem settled_of_isName {lexeme : Lexeme} (isName : lexeme.kind = .identifier) :
    lexeme.settled = ⟨.ofWord lexeme.text true, lexeme.text⟩ := if_pos isName

theorem settled_of_noName {lexeme : Lexeme} (noName : lexeme.kind ≠ .identifier) :
    lexeme.settled = lexeme := if_neg noName

private theorem settled_settled (lexeme : Lexeme) : lexeme.settled.settled = lexeme.settled := by
  by_cases isName : lexeme.kind = .identifier
  · rw [settled_of_isName isName]
    unfold Lexeme.settled
    split
    · rfl
    · rfl
  · rw [settled_of_noName isName, settled_of_noName isName]

/-- A token that is read where every word is finished changes no more than it may. -/
theorem settles_of_lexeme_eq {token other : Token} (same : other.lexeme = token.lexeme.settled) :
    token.Settles other := by
  unfold Token.Settles
  rw [isReservedName_iff]
  by_cases isName : token.kind = .identifier
  · rw [settled_of_isName isName] at same
    obtain ⟨isWord, sameText⟩ := Lexeme.mk.inj same
    refine ⟨sameText, ?_⟩
    rcases TokenKind.ofWord_cases token.text true with ⟨_, isReserved⟩ | ⟨staysName, isFree⟩
    · rw [isWord]
      exact .inl ⟨⟨isName, _, isReserved⟩, isReserved⟩
    · refine .inr ⟨?_, (isWord.trans staysName).trans isName.symm⟩
      rintro ⟨_, kind, isReserved⟩
      exact isFree rfl kind isReserved
  · rw [settled_of_noName isName] at same
    obtain ⟨sameKind, sameText⟩ := Lexeme.mk.inj same
    exact ⟨sameText, .inr ⟨fun isReserved => isName isReserved.1, sameKind⟩⟩

private theorem Token.Settles.kind_eq_iff {token other : Token} (settles : token.Settles other) :
    other.kind = token.kind ↔ ¬token.IsReservedName := by
  rcases settles.2 with ⟨isName, isReserved⟩ | ⟨noName, sameKind⟩
  · refine ⟨fun sameKind => ?_, fun noName => absurd isName noName⟩
    rw [sameKind, isName.1] at isReserved
    exact absurd rfl (plain_of_mem_reservedKinds isReserved).2
  · exact ⟨fun _ => noName, fun _ => sameKind⟩

private theorem map_kind_eq_iff {tokens others : List Token}
    (settles : List.Forall₂ Token.Settles tokens others) :
    others.map Token.kind = tokens.map Token.kind ↔ ∀ token ∈ tokens, ¬token.IsReservedName := by
  induction settles with
  | nil => exact ⟨fun _ => nofun, fun _ => rfl⟩
  | cons first _ inductionHypothesis =>
      rw [List.map_cons, List.map_cons, List.cons_eq_cons, first.kind_eq_iff, inductionHypothesis,
        List.forall_mem_cons]

private theorem Pattern.longest {characters : List Char} (fits : Pattern kind characters) :
    Longest kind characters [] where
  fits := fits
  longest otherKind other _ starts := by
    rw [List.append_nil] at starts
    exact starts.length_le

theorem Pattern.noStray (fits : Pattern kind inside) : kind.isStray = false := by
  cases fits <;> rfl

/-- A text starts with the lexeme of a piece that does not go on into the rest. -/
theorem lexemes?_pattern (fits : Pattern kind (first :: inside))
    (stops : ∀ next ∈ more.head?, Piece.takes kind inside next = false) :
    lexemes? (first :: inside ++ more) = (lexemes? more).map
      ((lexemeOf? (finishes more) kind (first :: inside)).toList ++ ·) := by
  have alone := fits.longest.split_eq
  rw [List.append_nil] at alone
  have split : Piece.split first (inside ++ more) = (kind, inside, more) := by
    rw [Piece.split_append_of_apart (by rw [alone]; exact fun _ => stops), alone, List.nil_append]
  rw [List.cons_append, lexemes?_cons, split, if_neg (by rw [fits.noStray]; exact nofun)]

private theorem takes_space (noString : kind ≠ .string) (noBlank : kind ≠ .blank)
    (inside : List Char) :
    Piece.takes kind inside ' ' = false := by
  cases kind with
  | string => contradiction
  | blank => contradiction
  | sign kind =>
      cases kind with
      | operator sign => cases sign <;> rfl
      | _ => rfl
  | stray character =>
      unfold Piece.takes
      split
      all_goals first | rfl | contradiction
  | _ => rfl

private theorem lexemes?_plain {characters : List Char} {lexeme : Lexeme}
    (fits : Pattern kind characters) (noString : kind ≠ .string) (noBlank : kind ≠ .blank)
    (isLexeme : lexemeOf? true kind characters = some lexeme)
    (spaced : ∀ next ∈ more.head?, next = ' ') :
    lexemes? (characters ++ more) = (lexemes? more).map (lexeme :: ·) := by
  have isFinished : finishes more = true := by
    cases more with
    | nil => rfl
    | cons next more =>
        rw [spaced next rfl]
        rfl
  obtain ⟨first, inside, rfl⟩ := List.exists_cons_of_ne_nil fits.ne_nil
  have stops : ∀ next ∈ more.head?, Piece.takes kind inside next = false := by
    intro next isNext
    rw [spaced next isNext]
    exact takes_space noString noBlank inside
  rw [lexemes?_pattern fits stops, isFinished, isLexeme]
  rfl

/-- A token that was read is written so that it is read again, as a finished word where it is a
word, if a space or nothing stands behind it. -/
theorem lexemes?_written {finished : Prop} {token : Token} {characters : List Char}
    (fits : Pattern kind characters) (means : Means finished kind characters token.lexeme)
    (spaced : ∀ next ∈ more.head?, next = ' ') :
    lexemes? (token.written.toList ++ more) =
      (lexemes? more).map (token.lexeme.settled :: ·) := by
  have isWritten : token.written = if token.lexeme.kind = .string then
      "\"" ++ token.lexeme.text ++ "\"" else token.lexeme.text := rfl
  rw [isWritten]
  generalize token.lexeme = lexeme at means
  cases means with
  | @openString inside noQuote | @closedString inside noQuote =>
      -- A string that was left open is closed when it is written.
      have quoted : ("\"" ++ String.ofList inside ++ "\"").toList ++ more =
          '"' :: (inside ++ '"' :: more) := by
        simp only [String.toList_append, String.toList_ofList, List.append_assoc]
        rfl
      rw [if_pos rfl, quoted]
      exact lexemes?_quoted noQuote more
  | number =>
      rw [if_neg (by exact nofun), String.toList_ofList]
      exact lexemes?_plain fits nofun nofun rfl spaced
  | sign tokenKind =>
      cases fits with
      | sign isSign =>
          obtain ⟨noString, noName⟩ := plain_of_mem_signs isSign
          rw [if_neg noString, String.toList_ofList, settled_of_noName noName]
          exact lexemes?_plain (.sign isSign) nofun nofun rfl spaced
  | reserved isFinished isReserved =>
      obtain ⟨noString, noName⟩ := plain_of_mem_reservedKinds isReserved
      rw [if_neg noString, String.toList_ofList, settled_of_noName noName]
      refine lexemes?_plain fits nofun nofun ?_ spaced
      rw [← ofWord_of_mem isReserved]
      rfl
  | identifier isFree =>
      rw [if_neg (by exact nofun), String.toList_ofList]
      exact lexemes?_plain fits nofun nofun rfl spaced

/-! ### Printed tokens -/

def Token.IsRead (token : Token) : Prop :=
  ∃ (finished : Prop) (kind : PieceKind) (characters : List Char),
    Pattern kind characters ∧ Means finished kind characters token.lexeme

private theorem Means.noStray {finished : Prop} {characters : List Char} {lexeme : Lexeme}
    (means : Means finished kind characters lexeme) : kind.isStray = false := by
  cases means <;> rfl

private theorem Munched.pattern {text : List Char} {found : List (PieceKind × List Char)}
    (munched : Munched text found) :
    ∀ piece ∈ found, piece.1.isStray = true ∨ Pattern piece.1 piece.2 := by
  induction munched with
  | nothing => exact nofun
  | piece longest _ inductionHypothesis =>
      exact List.forall_mem_cons.mpr ⟨.inr longest.fits, inductionHypothesis⟩
  | stray _ _ inductionHypothesis =>
      exact List.forall_mem_cons.mpr ⟨.inl rfl, inductionHypothesis⟩

private theorem Tokenized.isRead {source : Source} {front : List Char}
    {found : List (PieceKind × List Char)} {tokens : List Token}
    (tokenized : Tokenized source front found tokens)
    (fit : ∀ piece ∈ found, piece.1.isStray = true ∨ Pattern piece.1 piece.2) :
    ∀ token ∈ tokens, token.IsRead := by
  induction tokenized with
  | nothing => exact nofun
  | skip _ _ inductionHypothesis =>
      exact inductionHypothesis fun piece isLater => fit piece (List.mem_cons_of_mem _ isLater)
  | token means _ _ inductionHypothesis =>
      rw [List.forall_mem_cons] at fit ⊢
      obtain ⟨isStray | fits, others⟩ := fit
      · rw [means.noStray] at isStray
        cases isStray
      · exact ⟨⟨_, _, _, fits, means⟩, inductionHypothesis others⟩

private theorem isRead_of_ofText? {strict : Bool} {content : String} {tokens : List Token}
    (read : Token.ofText? strict content = .ok tokens) : ∀ token ∈ tokens, token.IsRead :=
  (tokenized_of_ofText? read).isRead (munched_pieces _).pattern

private theorem lexemes?_space (more : List Char) : lexemes? (' ' :: more) = lexemes? more := by
  rw [lexemes?_blank rfl, lexemes?_dropBlanks]

private theorem printed_cons_cons (token next : Token) (tokens : List Token) :
    (Token.printed (token :: next :: tokens)).toList =
      token.written.toList ++ ' ' :: (Token.printed (next :: tokens)).toList := by
  unfold Token.printed
  simp only [List.map_cons, String.toList_intercalate, List.intercalate_cons_cons,
    List.append_assoc]
  rfl

/-- Printed tokens are read as they were, with every word finished. -/
theorem lexemes?_printed {tokens : List Token} (areRead : ∀ token ∈ tokens, token.IsRead) :
    lexemes? (Token.printed tokens).toList =
      some (tokens.map fun token => token.lexeme.settled) := by
  induction tokens with
  | nil => exact lexemes?_nil
  | cons token tokens inductionHypothesis =>
      obtain ⟨⟨finished, kind, characters, fits, means⟩, others⟩ := List.forall_mem_cons.mp areRead
      cases tokens with
      | nil =>
          have ends : ∀ first ∈ ([] : List Char).head?, first = ' ' := nofun
          have alone := lexemes?_written fits means ends
          rw [List.append_nil, lexemes?_nil] at alone
          exact alone
      | cons next tokens =>
          have spaced : ∀ first ∈ (' ' :: (Token.printed (next :: tokens)).toList).head?,
              first = ' ' := by
            intro first isFirst
            cases isFirst
            rfl
          rw [printed_cons_cons, lexemes?_written fits means spaced, lexemes?_space,
            inductionHypothesis others]
          rfl

private theorem ofText?_of_lexemes? {text : String} {lexemes : List Lexeme}
    (areLexemes : lexemes? text.toList = some lexemes) :
    ∃ tokens, Token.ofText? true text = .ok tokens ∧ tokens.map Token.lexeme = lexemes := by
  rw [lexemes?_eq_ofText?, String.ofList_toList] at areLexemes
  cases read : Token.ofText? true text with
  | error error =>
      rw [read] at areLexemes
      cases areLexemes
  | ok tokens =>
      rw [read] at areLexemes
      exact ⟨tokens, rfl, Option.some.inj areLexemes⟩

private theorem ofText?_printed_lexemes {strict : Bool} {content : String} {tokens : List Token}
    (read : Token.ofText? strict content = .ok tokens) :
    ∃ others, Token.ofText? true (Token.printed tokens) = .ok others ∧
      others.map Token.lexeme = tokens.map fun token => token.lexeme.settled :=
  ofText?_of_lexemes? (lexemes?_printed (isRead_of_ofText? read))

/-- Tokens that are printed and read again are the same up to names with the texts of reserved
words, which become these words; from then on they stay as they are. -/
theorem Token.ofText?_printed {strict : Bool} {content : String} {tokens : List Token}
    (read : ofText? strict content = .ok tokens) :
    ∃ others, ofText? true (printed tokens) = .ok others ∧
      List.Forall₂ Settles tokens others ∧
      (∃ again, ofText? true (printed others) = .ok again ∧
        again.map Token.lexeme = others.map Token.lexeme) ∧
      (others.map Token.kind = tokens.map Token.kind ↔
        ∀ token ∈ tokens, ¬token.IsReservedName) := by
  obtain ⟨others, readOthers, sameOthers⟩ := ofText?_printed_lexemes read
  obtain ⟨again, readAgain, sameAgain⟩ := ofText?_printed_lexemes readOthers
  have settles : List.Forall₂ Settles tokens others := by
    rw [← List.forall₂_eq_eq_eq, List.forall₂_map_left_iff,
      List.forall₂_map_right_iff] at sameOthers
    exact sameOthers.flip.imp fun _ _ => settles_of_lexeme_eq
  refine ⟨others, readOthers, settles, ⟨again, readAgain, ?_⟩, ?_⟩
  · have settled : ∀ token ∈ others, token.lexeme.settled = token.lexeme := by
      intro token isMember
      have isSettled := List.mem_map_of_mem (f := Token.lexeme) isMember
      rw [sameOthers, List.mem_map] at isSettled
      obtain ⟨origin, _, same⟩ := isSettled
      rw [← same, settled_settled]
    rw [sameAgain]
    exact List.map_congr_left settled
  · exact map_kind_eq_iff settles

/-- The first word of `fun(let` is a name only because of what stands behind it. -/
theorem Token.ofText?_printed_glued :
    ∃ tokens, ofText? true "fun(let" = .ok tokens ∧
      ∃ others, ofText? true (printed tokens) = .ok others ∧
        List.Forall₂ Settles tokens others ∧
        (∃ again, ofText? true (printed others) = .ok again ∧
          again.map Token.lexeme = others.map Token.lexeme) ∧
        (others.map Token.kind = tokens.map Token.kind ↔
          ∀ token ∈ tokens, ¬token.IsReservedName) := by
  have read : ofText? true "fun(let" = .ok [⟨.identifier, "fun", ⟨1, 0, 0, 3⟩⟩,
      ⟨.openParen, "(", ⟨1, 3, 3, 4⟩⟩, ⟨.keyword .letWord, "let", ⟨1, 4, 4, 7⟩⟩] := by
    decide +kernel
  exact ⟨_, read, ofText?_printed read⟩

end SprigCompiler
