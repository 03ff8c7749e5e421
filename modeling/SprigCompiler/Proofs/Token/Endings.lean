import SprigCompiler.Proofs.Text.Endings
import SprigCompiler.Proofs.Token.Lines
import SprigCompiler.Proofs.Tree.Unspanned

/-!
Tokens and line breaks.

Outside of strings a newline with a carriage return is one line break, as a newline alone is.  So a
text has the same pieces at the same lines and columns when missing carriage returns are added, and
with them the same tokens but for bytes, or the same stray character.
-/

namespace SprigCompiler

open Spanned (unspanned)

namespace Piece

variable {first : Char} {rest : List Char} {condition : Char → Bool}

/-- Whether a condition holds of no quote and of no part of a line break. -/
def EndsRuns (condition : Char → Bool) : Prop :=
  condition '"' = false ∧ condition '\n' = false ∧ condition '\r' = false

theorem withReturns_of_condition (ends : EndsRuns condition) (holds : condition first = true)
    (inString behindReturn : Bool) :
    withReturns inString behindReturn (first :: rest) =
      first :: withReturns inString false rest := by
  have noQuote := ne_of_condition holds ends.1
  have noNewline := ne_of_condition holds ends.2.1
  have noReturn := ne_of_condition holds ends.2.2
  rw [withReturns_of_ne noNewline, beq_false_of_ne noQuote, beq_false_of_ne noReturn,
    Bool.bne_false]

/-- The first character stays, unless it is a newline that gets a carriage return. -/
theorem exists_withReturns (inString behindReturn : Bool) (next : Char) (rest : List Char) :
    ∃ head others, withReturns inString behindReturn (next :: rest) = head :: others ∧
      (head = next ∨ next = '\n' ∧ head = '\r') := by
  rcases withReturns_cases inString behindReturn next rest with ⟨isNewline, _, _, added⟩ | kept
  · exact ⟨_, _, added, .inr ⟨isNewline, rfl⟩⟩
  · exact ⟨_, _, kept, .inl rfl⟩

private theorem stops_withReturns (ends : EndsRuns condition) {next : Char}
    (stops : ¬condition next = true) (rest : List Char) :
    ∃ head others, withReturns false false (next :: rest) = head :: others ∧
      ¬condition head = true := by
  obtain ⟨head, others, whole, rfl | ⟨_, rfl⟩⟩ := exists_withReturns false false next rest
  · exact ⟨head, others, whole, stops⟩
  · exact ⟨'\r', others, whole, Bool.eq_false_iff.mp ends.2.2⟩

private theorem run_withReturns (kind : PieceKind) (ends : EndsRuns condition) (rest : List Char) :
    run kind condition (withReturns false false rest) =
      (kind, (run kind condition rest).2.1,
        withReturns false false (run kind condition rest).2.2) := by
  unfold run
  induction rest with
  | nil => rfl
  | cons next rest inductionHypothesis =>
      by_cases holds : condition next = true
      · obtain ⟨taken, left⟩ := Prod.mk.inj (Prod.mk.inj inductionHypothesis).2
        rw [withReturns_of_condition ends holds, List.takeWhile_cons_of_pos holds,
          List.takeWhile_cons_of_pos holds, List.dropWhile_cons_of_pos holds,
          List.dropWhile_cons_of_pos holds, taken, left]
      · obtain ⟨head, others, whole, stops⟩ := stops_withReturns ends holds rest
        rw [List.takeWhile_cons_of_neg holds, List.dropWhile_cons_of_neg holds, whole,
          List.takeWhile_cons_of_neg stops, List.dropWhile_cons_of_neg stops]

private theorem string_withReturns (behindReturn : Bool) (rest : List Char) :
    string (withReturns true behindReturn rest) =
      ((string rest).1, (string rest).2.1, withReturns false false (string rest).2.2) := by
  have same : (withReturns true behindReturn rest).takeWhile (· ≠ '"') =
        rest.takeWhile (· ≠ '"') ∧
      (withReturns true behindReturn rest).dropWhile (· ≠ '"') =
        (rest.dropWhile (· ≠ '"')).take 1 ++
          withReturns false false (rest.dropWhile (· ≠ '"')).tail := by
    induction rest generalizing behindReturn with
    | nil => exact ⟨rfl, rfl⟩
    | cons next rest inductionHypothesis =>
        rw [withReturns_inside]
        by_cases isQuote : next = '"'
        · subst isQuote
          exact ⟨rfl, rfl⟩
        · have goesOn : decide (next ≠ '"') = true := decide_eq_true isQuote
          have inside : (next != '"') = true := bne_iff_ne.mpr isQuote
          obtain ⟨taken, left⟩ := inductionHypothesis (next == '\r')
          simp only [inside, List.takeWhile_cons, List.dropWhile_cons, goesOn, if_true, taken, left,
            and_self]
  unfold string
  rw [same.1, same.2]
  cases rest.dropWhile (· ≠ '"') <;> rfl

private theorem endsRuns_isNumberCharacter : EndsRuns isNumberCharacter := by
  unfold EndsRuns
  decide

private theorem endsRuns_isWordCharacter : EndsRuns isWordCharacter := by
  unfold EndsRuns
  decide

private theorem endsRuns_isBlankCharacter : EndsRuns isBlankCharacter := by
  unfold EndsRuns
  decide

private theorem signed_withReturns (kind : TokenKind) (rest : List Char) :
    signed kind (withReturns false false rest) =
      ((signed kind rest).1, (signed kind rest).2.1,
        withReturns false false (signed kind rest).2.2) := by
  cases rest with
  | nil => rfl
  | cons next rest =>
      by_cases isNumber : isNumberCharacter next = true
      · have whole := run_withReturns .number endsRuns_isNumberCharacter (next :: rest)
        rw [withReturns_of_condition endsRuns_isNumberCharacter isNumber] at whole ⊢
        simp only [signed, if_pos isNumber, whole]
        rfl
      · obtain ⟨head, others, whole, stops⟩ :=
          stops_withReturns endsRuns_isNumberCharacter isNumber rest
        simp only [signed, if_neg isNumber, whole, if_neg stops]

private theorem carriageReturn_withReturns (rest : List Char) :
    carriageReturn (withReturns false true rest) =
      ((carriageReturn rest).1, (carriageReturn rest).2.1,
        withReturns false false (carriageReturn rest).2.2) := by
  cases rest with
  | nil => rfl
  | cons next rest =>
      by_cases isNewline : next = '\n'
      · subst isNewline
        rfl
      · rw [withReturns_of_ne isNewline]
        simp only [carriageReturn, if_neg isNewline]
        rw [withReturns_of_ne isNewline]

/-- Behind any first character but a newline, the same piece is cut off. -/
theorem split_withReturns (noNewline : first ≠ '\n') (rest : List Char) :
    split first (withReturns (first == '"') (first == '\r') rest) =
      ((split first rest).1, (split first rest).2.1,
        withReturns false false (split first rest).2.2) := by
  have inRun {condition : Char → Bool} (ends : EndsRuns condition)
      (holds : condition first = true) :
      withReturns (first == '"') (first == '\r') rest = withReturns false false rest := by
    rw [beq_false_of_ne (ne_of_condition holds ends.1),
      beq_false_of_ne (ne_of_condition holds ends.2.2)]
  unfold split
  split_ifs with isQuote isNumber isWord isBlank isReturn isPlus isMinus
  · rw [isQuote]
    exact string_withReturns false rest
  · rw [inRun endsRuns_isNumberCharacter isNumber]
    exact run_withReturns .number endsRuns_isNumberCharacter rest
  · rw [inRun endsRuns_isWordCharacter isWord]
    exact run_withReturns .word endsRuns_isWordCharacter rest
  · rw [inRun endsRuns_isBlankCharacter isBlank]
    exact run_withReturns .blank endsRuns_isBlankCharacter rest
  · rw [isReturn]
    exact carriageReturn_withReturns rest
  · rw [isPlus]
    exact signed_withReturns (.operator .plus) rest
  · rw [isMinus]
    exact signed_withReturns (.operator .minus) rest
  · rw [beq_false_of_ne isQuote, beq_false_of_ne isReturn]
    cases TokenKind.ofSign? first <;> rfl

private theorem split_lineBreak (isBreak : (split first rest).1 = .lineBreak)
    (noNewline : first ≠ '\n') :
    first :: (split first rest).2.1 = ['\r', '\n'] := by
  have noStray : (split first rest).1.isStray = false := by
    rw [isBreak]
    rfl
  have fits := pattern_split first rest noStray
  rw [isBreak] at fits
  generalize whole : first :: (split first rest).2.1 = characters at fits
  cases fits with
  | @lineBreak before carriage =>
      simp only [List.mem_cons, List.not_mem_nil, or_false] at carriage
      rcases carriage with rfl | rfl
      · exact absurd (List.cons.inj whole).1 noNewline
      · rfl

end Piece

/-- Whether two pieces are of one kind, start at the same line and column and are written in the
same way, if they are no line breaks. -/
structure Piece.Matches (piece other : Piece) : Prop where
  kind : other.kind = piece.kind
  position : other.first.position = piece.first.position
  characters : piece.kind = .lineBreak ∨ other.characters = piece.characters

/-- The pieces of a text match those that it has with carriage returns. -/
theorem Piece.cut_withReturns (text : List Char) {place other : Place}
    (samePosition : other.position = place.position) :
    List.Forall₂ Piece.Matches (Piece.cut place text)
      (Piece.cut other (withReturns false false text)) := by
  induction text using Piece.split_induction generalizing place other with
  | nil =>
      rw [withReturns, Piece.cut, Piece.cut]
      exact .nil
  | cons first rest inductionHypothesis =>
      by_cases isNewline : first = '\n'
      · subst isNewline
        rw [withReturns_newline, Piece.cut, Piece.cut]
        refine .cons ⟨rfl, samePosition, .inl rfl⟩ (inductionHypothesis ?_)
        rw [Place.position_afterAll, Place.position_afterAll, samePosition]
        rfl
      · rw [withReturns_of_ne isNewline, Bool.false_bne, Piece.cut, Piece.cut,
          Piece.split_withReturns isNewline]
        refine .cons ⟨rfl, samePosition, .inr rfl⟩ (inductionHypothesis ?_)
        rw [Place.position_afterAll, Place.position_afterAll, samePosition]

/-- Adding the missing carriage returns means to write every line break with one: the newlines that
are left alone are those inside of strings. -/
theorem withReturns_eq_flatMap (text : List Char) (place : Place) :
    withReturns false false text = (Piece.cut place text).flatMap fun piece =>
      if piece.kind = .lineBreak then ['\r', '\n'] else piece.characters := by
  induction text using Piece.split_induction generalizing place with
  | nil =>
      rw [Piece.cut]
      rfl
  | cons first rest inductionHypothesis =>
      rw [Piece.cut, List.flatMap_cons, ← inductionHypothesis]
      by_cases isNewline : first = '\n'
      · subst isNewline
        rfl
      · have whole := Piece.split_append first (withReturns (first == '"') (first == '\r') rest)
        rw [Piece.split_withReturns isNewline] at whole
        rw [withReturns_of_ne isNewline, Bool.false_bne, ← whole]
        split
        · rename_i isBreak
          exact congrArg (· ++ _) (Piece.split_lineBreak isBreak isNewline)
        · rfl

private theorem Piece.Matches.isBoundary {piece other : Piece} (same : piece.Matches other) :
    other.isBoundary = piece.isBoundary := by
  unfold Piece.isBoundary
  rw [same.kind]

private theorem Piece.Matches.reading? {piece other : Piece} (same : piece.Matches other)
    (finished : Bool) : Token.reading? finished other = Token.reading? finished piece := by
  unfold Token.reading?
  rw [same.kind]
  rcases same.characters with isBreak | sameCharacters
  · rw [isBreak]
  · rw [sameCharacters]

private theorem firstStray?_matches {pieces others : List Piece}
    (same : List.Forall₂ Piece.Matches pieces others) :
    Token.firstStray? others = Token.firstStray? pieces := by
  unfold Token.firstStray?
  induction same with
  | nil => rfl
  | cons first _ inductionHypothesis =>
      rw [List.findSome?_cons, List.findSome?_cons, inductionHypothesis, first.position]
      unfold Piece.stray?
      rw [first.kind]

private theorem ofPieces_matches {pieces others : List Piece}
    (same : List.Forall₂ Piece.Matches pieces others) :
    unspanned (Token.ofPieces others) = unspanned (Token.ofPieces pieces) := by
  induction same with
  | nil => rfl
  | @cons piece other pieces others first rest inductionHypothesis =>
      have finished : Token.isFinishedBefore others = Token.isFinishedBefore pieces := by
        cases rest with
        | nil => rfl
        | cons next _ => exact next.isBoundary
      have location : unspanned other.location = unspanned piece.location := by
        change Location.mk other.first.position.line other.first.position.column 0 0 = _
        rw [first.position]
        rfl
      rw [Token.ofPieces, Token.ofPieces, finished, first.reading?]
      cases Token.reading? (Token.isFinishedBefore pieces) piece with
      | none => exact inductionHypothesis
      | some reading =>
          exact congrArg₂ (fun place tokens => Token.mk reading.1 reading.2 place :: tokens)
            location inductionHypothesis

/-- A text has the same tokens but for bytes when missing carriage returns are added, or the same
stray character. -/
theorem ofText?_returned (content : String) :
    unspanned (Token.ofText? true (returned content)) = unspanned (Token.ofText? true content) := by
  have same := Piece.cut_withReturns content.toList (rfl : Place.origin.position = _)
  rw [ofText?_eq, ofText?_eq, returned, String.toList_ofList, firstStray?_matches same]
  cases Token.firstStray? (Piece.cut .origin content.toList) with
  | some error => rfl
  | none => exact congrArg Except.ok (ofPieces_matches same)

end SprigCompiler
