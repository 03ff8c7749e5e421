import SprigCompiler.Proofs.Guarded.Text
import SprigCompiler.Proofs.Token.Scanning

/-!
Guarded reading of tokens.

The text is first cut into spans of bytes.  Each span is then sliced out of the text again, the
quotes of strings are dropped, and the positions are looked up.  All of this stays in its domain,
since the spans start and end where characters do and strings start with a quote.
-/

namespace SprigCompiler.Guarded

structure Span where
  kind : PieceKind
  start : Nat
  stop : Nat

def Span.ofPiece (piece : Piece) : Span := ⟨piece.kind, piece.first.offset, piece.last.offset⟩

def spans (text : List Char) : List Span := (Piece.cut .origin text).map .ofPiece

def stray? (text : List Char) (start : Nat) : Option LexicalError := do
  let position ← position? text start
  return ⟨((drop? start text).bind List.head?).getD '\ufffd', position⟩

/-- The spans without stray characters.  When reading strictly the first of these is an error. -/
def scan? (text : List Char) (strict : Bool) : List Span → Option (Except LexicalError (List Span))
  | [] => some (.ok [])
  | span :: rest =>
      if span.kind.isStray then
        if strict then do return .error (← stray? text span.start)
        else scan? text strict rest
      else do
        match ← scan? text strict rest with
        | .ok others => some (.ok (span :: others))
        | .error error => some (.error error)

def tokenKind? (finished : Bool) (kind : PieceKind) (characters : List Char) : Option TokenKind :=
  match kind with
  | .string => some .string
  | .number => some .number
  | .word => some (.ofWord (String.ofList characters) finished)
  | .sign kind => some kind
  | .blank | .lineBreak | .stray _ => none

/-- What stands behind the quote of a string and in front of the other one, if there is one. -/
def unquoted? (characters : List Char) : Option (List Char) := do
  let inside ← drop? 1 characters
  return if inside.getLast? = some '"' then inside.dropLast else inside

def reading? (finished : Bool) (kind : PieceKind) (characters : List Char) :
    Option (Option (TokenKind × String)) :=
  match tokenKind? finished kind characters with
  | none => some none
  | some tokenKind => do
      let shown ← if tokenKind = .string then unquoted? characters else some characters
      return some (tokenKind, String.ofList shown)

def token? (text : List Char) (finished : Bool) (span : Span) : Option (Option Token) := do
  match ← reading? finished span.kind (← slice? text span.start span.stop) with
  | none => some none
  | some (kind, shown) => do
      return some ⟨kind, shown, ← location? text span.start span.stop⟩

def isFinishedBefore : List Span → Bool
  | [] => true
  | next :: _ => next.kind.isBoundary

def retag? (text : List Char) : List Span → Option (List Token)
  | [] => some []
  | span :: rest => do
      let token ← token? text (isFinishedBefore rest) span
      return token.toList ++ (← retag? text rest)

def tokens? (strict : Bool) (text : List Char) : Option (Except LexicalError (List Token)) := do
  match ← scan? text strict (spans text) with
  | .error error => some (.error error)
  | .ok found => do return .ok (← retag? text found)

variable {front inside behind text characters : List Char} {kind : PieceKind} {piece : Piece}

private theorem unquoted?_open (noQuote : '"' ∉ inside) :
    unquoted? ('"' :: inside) = some inside := by
  have noLast : inside.getLast? ≠ some '"' := fun isLast => noQuote (List.mem_of_getLast? isLast)
  unfold unquoted?
  rw [show drop? 1 ('"' :: inside) = some inside from drop?_append ['"'] inside]
  exact congrArg some (if_neg noLast)

private theorem unquoted?_closed (inside : List Char) :
    unquoted? ('"' :: (inside ++ ['"'])) = some inside := by
  unfold unquoted?
  rw [show drop? 1 ('"' :: (inside ++ ['"'])) = some (inside ++ ['"']) from drop?_append ['"'] _]
  change some (if (inside ++ ['"']).getLast? = some '"' then _ else _) = _
  rw [if_pos List.getLast?_concat, List.dropLast_concat]

private theorem reading?_plain {finished : Bool} {tokenKind : TokenKind}
    (isToken : tokenKind? finished kind characters = some tokenKind)
    (noString : tokenKind ≠ .string) :
    reading? finished kind characters = some (some (tokenKind, String.ofList characters)) := by
  unfold reading?
  rw [isToken]
  dsimp only
  rw [if_neg noString]
  rfl

private theorem reading?_string (finished : Bool) (isInside : unquoted? characters = some inside) :
    reading? finished .string characters = some (some (.string, String.ofList inside)) := by
  unfold reading? tokenKind?
  dsimp only
  rw [if_pos rfl, isInside]
  rfl

private theorem reading?_eq (fits : Pattern kind characters) (finished : Bool)
    (first last : Place) :
    reading? finished kind characters =
      some (Token.reading? finished ⟨kind, characters, first, last⟩) := by
  cases fits with
  | @openString inside noQuote =>
      have same := takeWhile_noQuote noQuote (.inl rfl)
      rw [List.append_nil] at same
      simp only [reading?_string finished (unquoted?_open noQuote), Token.reading?,
        List.tail_cons, same]
  | @closedString inside noQuote =>
      simp only [reading?_string finished (unquoted?_closed inside), Token.reading?,
        List.tail_cons, takeWhile_noQuote noQuote (.inr rfl)]
  | number => exact reading?_plain rfl nofun
  | word =>
      have noString : TokenKind.ofWord (String.ofList characters) finished ≠ .string := by
        rcases TokenKind.ofWord_cases (String.ofList characters) finished with
          ⟨_, isReserved⟩ | ⟨isName, _⟩
        · exact (plain_of_mem_reservedKinds isReserved).1
        · rw [isName]
          exact nofun
      exact reading?_plain rfl noString
  | sign isSign => exact reading?_plain rfl (plain_of_mem_signs isSign).1
  | blank => rfl
  | lineBreak => rfl

def pieceBehind (front : List Char) (kind : PieceKind) (characters : List Char) : Piece :=
  ⟨kind, characters, Place.origin.afterAll front, (Place.origin.afterAll front).afterAll characters⟩

private theorem ofPiece_pieceBehind (front : List Char) (kind : PieceKind)
    (characters : List Char) :
    Span.ofPiece (pieceBehind front kind characters) =
      ⟨kind, byteCount front, byteCount (front ++ characters)⟩ := by
  unfold Span.ofPiece pieceBehind
  rw [← Place.afterAll_append, Place.offset_afterAll_eq, Place.offset_afterAll_eq]
  simp only [Place.origin, Nat.zero_add]

private theorem token?_eq (fits : Pattern kind characters)
    (split : text = front ++ (characters ++ behind)) (finished : Bool) :
    token? text finished (.ofPiece (pieceBehind front kind characters)) =
      some ((Token.reading? finished (pieceBehind front kind characters)).map fun reading =>
        ⟨reading.1, reading.2, (pieceBehind front kind characters).location⟩) := by
  have isSlice := slice?_append front characters behind
  rw [← split, ← byteCount_append] at isSlice
  have located := location?_upTo front characters behind
  rw [← split] at located
  rw [ofPiece_pieceBehind]
  unfold token?
  simp only [isSlice, Option.bind_eq_bind, Option.bind_some]
  rw [reading?_eq fits finished (Place.origin.afterAll front)
    ((Place.origin.afterAll front).afterAll characters)]
  change (match Token.reading? finished (pieceBehind front kind characters) with
    | none => _
    | some (kind, shown) => _) = _
  cases Token.reading? finished (pieceBehind front kind characters) with
  | none => rfl
  | some reading =>
      simp only [located, Option.bind_some, Option.map_some]
      rfl

private theorem isFinishedBefore_map (pieces : List Piece) :
    isFinishedBefore (pieces.map .ofPiece) = Token.isFinishedBefore pieces := by
  cases pieces <;> rfl

private theorem stray?_eq (front behind : List Char) (character : Char) :
    stray? (front ++ character :: behind) (byteCount front) =
      some ⟨character, (Place.origin.afterAll front).position⟩ := by
  unfold stray?
  rw [position?_byteCount, drop?_append, Place.position_afterAll]
  rfl

private theorem cut_cons (front : List Char) (first : Char) (rest : List Char) :
    Piece.cut (Place.origin.afterAll front) (first :: rest) =
      pieceBehind front (Piece.split first rest).1 (first :: (Piece.split first rest).2.1) ::
        Piece.cut (Place.origin.afterAll (front ++ first :: (Piece.split first rest).2.1))
          (Piece.split first rest).2.2 := by
  rw [Piece.cut, Place.afterAll_append]
  rfl

private theorem retag?_cut {rest : List Char} (split : text = front ++ rest) :
    retag? text (((Piece.cut (Place.origin.afterAll front) rest).filter (·.stray?.isNone)).map
        .ofPiece) =
      some (Token.ofPieces ((Piece.cut (Place.origin.afterAll front) rest).filter
        (·.stray?.isNone))) := by
  induction rest using Piece.split_induction generalizing front with
  | nil =>
      rw [Piece.cut]
      rfl
  | cons first rest inductionHypothesis =>
      have splitRest : text = front ++ (first :: (Piece.split first rest).2.1 ++
          (Piece.split first rest).2.2) := by
        rw [split, List.cons_append, Piece.split_append]
      have others := inductionHypothesis (splitRest.trans (List.append_assoc _ _ _).symm)
      rw [cut_cons, List.filter_cons, isNone_stray?]
      cases isStray : (Piece.split first rest).1.isStray with
      | true =>
          rw [show (pieceBehind front _ _).kind.isStray = true from isStray]
          exact others
      | false =>
          have isToken := token?_eq (Piece.pattern_split first rest isStray) splitRest
          rw [show (pieceBehind front _ _).kind.isStray = false from isStray, Bool.not_false,
            if_pos rfl, List.map_cons, retag?, isFinishedBefore_map, isToken, others,
            Token.ofPieces]
          cases Token.reading? _ _ <;> rfl

def scanned {Result : Type} (error? : Option LexicalError) (found : Result) :
    Except LexicalError Result :=
  match error? with
  | some error => .error error
  | none => .ok found

private theorem scan?_of_plain {span : Span} {strict : Bool} {rest found : List Span}
    {error? : Option LexicalError} (plain : span.kind.isStray = false)
    (others : scan? text strict rest = some (scanned error? found)) :
    scan? text strict (span :: rest) = some (scanned error? (span :: found)) := by
  rw [scan?, plain, others]
  cases error? <;> rfl

private theorem scan?_cut (strict : Bool) {rest : List Char} (split : text = front ++ rest) :
    scan? text strict ((Piece.cut (Place.origin.afterAll front) rest).map .ofPiece) =
      some (scanned
        (if strict then Token.firstStray? (Piece.cut (Place.origin.afterAll front) rest) else none)
        (((Piece.cut (Place.origin.afterAll front) rest).filter (·.stray?.isNone)).map
          .ofPiece)) := by
  induction rest using Piece.split_induction generalizing front with
  | nil =>
      rw [Piece.cut]
      cases strict <;> rfl
  | cons first rest inductionHypothesis =>
      have splitRest : text = front ++ (first :: (Piece.split first rest).2.1 ++
          (Piece.split first rest).2.2) := by
        rw [split, List.cons_append, Piece.split_append]
      have others := inductionHypothesis (splitRest.trans (List.append_assoc _ _ _).symm)
      rw [cut_cons, List.map_cons, List.filter_cons, isNone_stray?]
      unfold Token.firstStray? at others ⊢
      rw [List.findSome?_cons]
      cases isStray : (Piece.split first rest).1.isStray with
      | true =>
          rw [Piece.split_of_isStray isStray] at others ⊢
          cases strict with
          | true =>
              have isFault := stray?_eq front rest first
              rw [← split] at isFault
              rw [scan?, ofPiece_pieceBehind]
              change (do return Except.error (← stray? text (byteCount front))) = _
              rw [isFault]
              rfl
          | false => exact others
      | false =>
          have isKind : (pieceBehind front (Piece.split first rest).1
              (first :: (Piece.split first rest).2.1)).kind.isStray = false := isStray
          rw [isKind, stray?_eq_none isKind]
          exact scan?_of_plain isKind others

private theorem tokens?_of_scanned {strict : Bool} {error? : Option LexicalError}
    {found : List Span} {tokens : List Token}
    (scans : scan? text strict (spans text) = some (scanned error? found))
    (retags : retag? text found = some tokens) :
    tokens? strict text = some (scanned error? tokens) := by
  unfold tokens?
  rw [scans]
  cases error? with
  | some error => rfl
  | none =>
      change (do return Except.ok (← retag? text found)) = _
      rw [retags]
      rfl

theorem tokens?_eq (strict : Bool) (content : String) :
    tokens? strict content.toList = some (Token.ofText? strict content) :=
  tokens?_of_scanned (scan?_cut strict (List.nil_append _).symm)
    (retag?_cut (List.nil_append _).symm)

end SprigCompiler.Guarded
