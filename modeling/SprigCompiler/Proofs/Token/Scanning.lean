import SprigCompiler.Proofs.Text.Positions
import SprigCompiler.Proofs.Token.Patterns

/-!
Tokens as a rule about pieces.

Every piece that is no blank, no line break and not stray is a token, and its kind follows from its
own characters, but for words: these are reserved only where a blank, a line break or nothing
stands behind them.  Stray characters do not count as standing behind a word.
-/

namespace SprigCompiler

def reservedKinds : List (String × TokenKind) :=
  [("main", .keyword .mainWord), ("type", .keyword .typeWord), ("let", .keyword .letWord),
    ("fun", .keyword .funWord), ("func", .keyword .funcWord), ("return", .keyword .returnWord),
    ("true", .boolean), ("false", .boolean)]

/-- Whether a blank, a line break or nothing comes next, when stray characters are left out. -/
def FinishedBy (behind : List (PieceKind × List Char)) : Prop :=
  ∀ next ∈ (behind.filter fun piece => !piece.1.isStray).head?,
    next.1 = .blank ∨ next.1 = .lineBreak

inductive Means (finished : Prop) : PieceKind → List Char → Lexeme → Prop where
  | openString {inside : List Char} (noQuote : '"' ∉ inside) :
      Means finished .string ('"' :: inside) ⟨.string, String.ofList inside⟩
  | closedString {inside : List Char} (noQuote : '"' ∉ inside) :
      Means finished .string ('"' :: (inside ++ ['"'])) ⟨.string, String.ofList inside⟩
  | number (characters : List Char) :
      Means finished .number characters ⟨.number, String.ofList characters⟩
  | sign (kind : TokenKind) (characters : List Char) :
      Means finished (.sign kind) characters ⟨kind, String.ofList characters⟩
  | reserved {characters : List Char} {kind : TokenKind} (isFinished : finished)
      (isReserved : (String.ofList characters, kind) ∈ reservedKinds) :
      Means finished .word characters ⟨kind, String.ofList characters⟩
  | identifier {characters : List Char}
      (isFree : finished → ∀ kind, (String.ofList characters, kind) ∉ reservedKinds) :
      Means finished .word characters ⟨.identifier, String.ofList characters⟩

/-- Whether some tokens are those of pieces that stand behind the characters `front` of a text: in
order, one for each piece that is no blank, no line break and not stray, with the location of the
piece. -/
inductive Tokenized (source : Source) :
    List Char → List (PieceKind × List Char) → List Token → Prop where
  | nothing (front : List Char) : Tokenized source front [] []
  | skip {front characters : List Char} {kind : PieceKind}
      {pieces : List (PieceKind × List Char)} {tokens : List Token}
      (noToken : kind = .blank ∨ kind = .lineBreak ∨ kind.isStray = true)
      (others : Tokenized source (front ++ characters) pieces tokens) :
      Tokenized source front ((kind, characters) :: pieces) tokens
  | token {front characters : List Char} {kind : PieceKind}
      {pieces : List (PieceKind × List Char)} {token : Token} {tokens : List Token}
      (means : Means (FinishedBy pieces) kind characters token.lexeme)
      (located : source.location? (byteCount front) (byteCount (front ++ characters)) =
        some token.location)
      (others : Tokenized source (front ++ characters) pieces tokens) :
      Tokenized source front ((kind, characters) :: pieces) (token :: tokens)

variable {kind : PieceKind} {front characters : List Char}

/-- What a word is, as a rule about the table of reserved words. -/
theorem TokenKind.ofWord_cases (word : String) (finished : Bool) :
    (finished = true ∧ (word, TokenKind.ofWord word finished) ∈ reservedKinds) ∨
      (TokenKind.ofWord word finished = .identifier ∧
        (finished = true → ∀ kind, (word, kind) ∉ reservedKinds)) := by
  cases finished with
  | false => exact .inr ⟨rfl, nofun⟩
  | true =>
      by_cases isReserved : word ∈ reservedKinds.map Prod.fst
      · refine .inl ⟨rfl, ?_⟩
        simp only [reservedKinds, List.map_cons, List.map_nil, List.mem_cons, List.not_mem_nil,
          or_false] at isReserved
        rcases isReserved with rfl | rfl | rfl | rfl | rfl | rfl | rfl | rfl
        all_goals decide
      · refine .inr ⟨?_, fun _ kind isMember => isReserved (List.mem_map_of_mem isMember)⟩
        simp only [reservedKinds, List.map_cons, List.map_nil, List.mem_cons, List.not_mem_nil,
          or_false, not_or] at isReserved
        simp only [TokenKind.ofWord, Keyword.ofWord?, isReserved, if_true, if_false, or_self]

theorem plain_of_mem_signs {character : Char} {kind : TokenKind}
    (isSign : (character, kind) ∈ signs) : kind ≠ .string ∧ kind ≠ .identifier := by
  simp only [signs, List.mem_cons, Prod.mk.injEq, List.not_mem_nil, or_false] at isSign
  rcases isSign with h | h | h | h | h | h | h | h | h | h | h | h | h
  all_goals
    rw [h.2]
    decide

theorem plain_of_mem_reservedKinds {word : String} {kind : TokenKind}
    (isReserved : (word, kind) ∈ reservedKinds) : kind ≠ .string ∧ kind ≠ .identifier := by
  simp only [reservedKinds, List.mem_cons, Prod.mk.injEq, List.not_mem_nil, or_false] at isReserved
  rcases isReserved with h | h | h | h | h | h | h | h
  all_goals
    rw [h.2]
    decide

theorem takeWhile_noQuote {inside : List Char} (noQuote : '"' ∉ inside)
    {behind : List Char} (ends : behind = [] ∨ behind = ['"']) :
    (inside ++ behind).takeWhile (· ≠ '"') = inside := by
  apply Piece.takeWhile_append_of_all
  · intro character isMember
    rw [decide_eq_true_eq]
    rintro rfl
    exact noQuote isMember
  · rcases ends with rfl | rfl
    · exact nofun
    · intro next isNext
      cases isNext
      rfl

private theorem means_of_reading? {finished : Bool} {first last : Place} {tokenKind : TokenKind}
    {text : String} (fits : Pattern kind characters)
    (isToken : Token.reading? finished ⟨kind, characters, first, last⟩ = some (tokenKind, text)) :
    Means (finished = true) kind characters ⟨tokenKind, text⟩ := by
  cases fits with
  | @openString inside noQuote =>
      cases isToken
      have same := takeWhile_noQuote noQuote (.inl rfl)
      rw [List.append_nil] at same
      simp only [List.tail_cons, same]
      exact .openString noQuote
  | closedString noQuote =>
      cases isToken
      simp only [List.tail_cons, takeWhile_noQuote noQuote (.inr rfl)]
      exact .closedString noQuote
  | number =>
      cases isToken
      exact .number _
  | word =>
      cases isToken
      rcases TokenKind.ofWord_cases (String.ofList characters) finished with
        ⟨isFinished, isReserved⟩ | ⟨isName, isFree⟩
      · exact .reserved isFinished isReserved
      · rw [isName]
        exact .identifier isFree
  | sign =>
      cases isToken
      exact .sign _ _
  | blank => cases isToken
  | lineBreak => cases isToken

private theorem noToken_of_reading? {finished : Bool} {piece : Piece}
    (noToken : Token.reading? finished piece = none) :
    piece.kind = .blank ∨ piece.kind = .lineBreak ∨ piece.kind.isStray = true := by
  obtain ⟨kind, characters, first, last⟩ := piece
  cases kind with
  | blank => exact .inl rfl
  | lineBreak => exact .inr (.inl rfl)
  | stray character => exact .inr (.inr rfl)
  | _ => cases noToken

theorem isNone_stray? (piece : Piece) : piece.stray?.isNone = !piece.kind.isStray := by
  unfold Piece.stray?
  cases piece.kind <;> rfl

theorem stray?_eq_none {piece : Piece} (noStray : piece.kind.isStray = false) :
    piece.stray? = none := by
  rw [← Option.isNone_iff_eq_none, isNone_stray?, noStray]
  rfl

private theorem isFinishedBefore_iff (pieces : List Piece) :
    Token.isFinishedBefore (pieces.filter (·.stray?.isNone)) = true ↔
      FinishedBy (pieces.map fun piece => (piece.kind, piece.characters)) := by
  have sameFilter : (pieces.map fun piece => (piece.kind, piece.characters)).filter
        (fun piece => !piece.1.isStray) =
      (pieces.filter (·.stray?.isNone)).map fun piece => (piece.kind, piece.characters) := by
    rw [List.filter_map]
    simp only [isNone_stray?]
    rfl
  unfold FinishedBy
  rw [sameFilter]
  cases pieces.filter (·.stray?.isNone) with
  | nil => exact ⟨fun _ => nofun, fun _ => rfl⟩
  | cons next others =>
      simp only [Token.isFinishedBefore, Piece.isBoundary, Bool.or_eq_true, beq_iff_eq,
        List.map_cons, List.head?_cons, Option.mem_def, Option.some.injEq, forall_eq']

/-- The pieces of a text, one behind the other, are the text. -/
theorem flatMap_pieces (text : List Char) : (pieces text).flatMap Prod.snd = text := by
  induction text using Piece.split_induction with
  | nil => rw [pieces_nil]; rfl
  | cons first rest inductionHypothesis =>
      rw [pieces_cons, List.flatMap_cons, inductionHypothesis, List.cons_append, Piece.split_append]

private theorem location?_upTo {content : String} {behind : List Char}
    (split : content.toList = front ++ (characters ++ behind)) :
    (Source.ofString content).location? (byteCount front) (byteCount (front ++ characters)) =
      some ((Place.origin.afterAll front).upTo
        ((Place.origin.afterAll front).afterAll characters)) := by
  rw [Source.location?_byteCount split]
  unfold Place.upTo
  rw [← Place.afterAll_append, Place.offset_afterAll_eq, Place.offset_afterAll_eq,
    Place.position_afterAll]
  simp only [Place.origin, Nat.zero_add]

private theorem tokenized_cut {content : String} {text : List Char}
    (split : content.toList = front ++ text) :
    Tokenized (.ofString content) front (pieces text)
      (Token.ofPieces ((Piece.cut (Place.origin.afterAll front) text).filter
        (·.stray?.isNone))) := by
  induction text using Piece.split_induction generalizing front with
  | nil =>
      rw [pieces_nil, Piece.cut]
      exact .nothing front
  | cons first rest inductionHypothesis =>
      have splitRest : content.toList = front ++ first :: (Piece.split first rest).2.1 ++
          (Piece.split first rest).2.2 := by
        rw [split, List.append_assoc, List.cons_append, Piece.split_append]
      have others := inductionHypothesis splitRest
      rw [Place.afterAll_append] at others
      have behind := isFinishedBefore_iff (Piece.cut ((Place.origin.afterAll front).afterAll
        (first :: (Piece.split first rest).2.1)) (Piece.split first rest).2.2)
      -- What finishes a word does not depend on where the pieces behind it stand.
      rw [map_cut _ .origin] at behind
      rw [pieces_cons, Piece.cut, List.filter_cons, isNone_stray?]
      cases isStray : (Piece.split first rest).1.isStray with
      | true => exact .skip (.inr (.inr isStray)) others
      | false =>
          have fits := Piece.pattern_split first rest isStray
          rw [Bool.not_false, if_pos rfl, Token.ofPieces]
          cases isToken : Token.reading? _ _ with
          | none => exact .skip (noToken_of_reading? isToken) others
          | some reading =>
              obtain ⟨kind, text⟩ := reading
              have means := means_of_reading? fits isToken
              rw [behind] at means
              have located := location?_upTo (splitRest.trans (List.append_assoc _ _ _))
              exact .token means located others

theorem firstStray?_cut {text : List Char} {error : LexicalError}
    (isFirst : Token.firstStray? (Piece.cut (Place.origin.afterAll front) text) = some error) :
    ∃ before after, pieces text = before ++ (.stray error.character, [error.character]) :: after ∧
      (∀ piece ∈ before, piece.1.isStray = false) ∧
      error.position = Position.origin.afterAll (front ++ before.flatMap Prod.snd) := by
  induction text using Piece.split_induction generalizing front with
  | nil =>
      rw [Piece.cut] at isFirst
      cases isFirst
  | cons first rest inductionHypothesis =>
      rw [Piece.cut, ← Place.afterAll_append] at isFirst
      unfold Token.firstStray? at isFirst
      rw [List.findSome?_cons] at isFirst
      rw [pieces_cons]
      cases isStray : (Piece.split first rest).1.isStray with
      | true =>
          rw [Piece.split_of_isStray isStray] at isFirst ⊢
          cases isFirst
          refine ⟨[], pieces rest, rfl, List.forall_mem_nil _, ?_⟩
          rw [List.flatMap_nil, List.append_nil, Place.position_afterAll]
          rfl
      | false =>
          rw [stray?_eq_none isStray] at isFirst
          obtain ⟨before, after, split, plain, position⟩ := inductionHypothesis isFirst
          refine ⟨((Piece.split first rest).1, first :: (Piece.split first rest).2.1) :: before,
            after, by rw [split]; rfl, ?_, ?_⟩
          · intro piece isMember
            rcases List.mem_cons.mp isMember with rfl | isLater
            · exact isStray
            · exact plain piece isLater
          · rw [position, List.append_assoc]
            rfl

theorem tokenized_ofPieces (content : String) :
    Tokenized (.ofString content) [] (pieces content.toList)
      (Token.ofPieces ((Piece.cut .origin content.toList).filter (·.stray?.isNone))) :=
  tokenized_cut rfl

theorem tokenized_of_ofText? {strict : Bool} {content : String} {tokens : List Token}
    (read : Token.ofText? strict content = .ok tokens) :
    Tokenized (.ofString content) [] (pieces content.toList) tokens := by
  unfold Token.ofText? at read
  cases found : if strict = true then Token.firstStray? (Piece.cut .origin content.toList)
      else none with
  | some error =>
      simp only [found] at read
      cases read
  | none =>
      simp only [found] at read
      cases read
      exact tokenized_ofPieces content

/-- Tokens are the longest matches of the patterns, in order.  A text is cut in one way only.  Read
strictly, it fails exactly when a piece of it is stray, with the first such character and the
position of its offset; otherwise every piece that is no blank, no line break and not stray gives
one token. -/
theorem Token.ofText?_munched (strict : Bool) (content : String) :
    ∃ pieces, (∀ found, Munched content.toList found ↔ found = pieces) ∧
      match Token.ofText? strict content with
      | .error error =>
          strict = true ∧ ∃ before after,
            pieces = before ++ (.stray error.character, [error.character]) :: after ∧
            (∀ piece ∈ before, piece.1.isStray = false) ∧
            (Source.ofString content).position? (byteCount (before.flatMap Prod.snd)) =
              some error.position
      | .ok tokens =>
          (strict = true → ∀ piece ∈ pieces, piece.1.isStray = false) ∧
            Tokenized (.ofString content) [] pieces tokens := by
  refine ⟨pieces content.toList, fun found => munched_iff, ?_⟩
  unfold Token.ofText?
  cases strict with
  | false => exact ⟨nofun, tokenized_ofPieces content⟩
  | true =>
      simp only [if_true]
      cases isFirst : Token.firstStray? (Piece.cut .origin content.toList) with
      | none =>
          refine ⟨fun _ piece isMember => ?_, tokenized_ofPieces content⟩
          obtain ⟨found, isFound, rfl⟩ := List.mem_map.mp isMember
          have plain := (firstStray?_eq_none_iff _).mp isFirst found isFound
          rw [isNone_stray?, Bool.not_eq_true'] at plain
          exact plain
      | some error =>
          obtain ⟨before, after, split, plain, position⟩ := @firstStray?_cut [] _ _ isFirst
          have whole := flatMap_pieces content.toList
          rw [split, List.flatMap_append] at whole
          refine ⟨trivial, before, after, split, plain, ?_⟩
          rw [Source.position?_byteCount whole.symm, position]
          rfl

end SprigCompiler
