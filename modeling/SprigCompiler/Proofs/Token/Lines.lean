import SprigCompiler.Proofs.Token.Patterns
import SprigCompiler.Proofs.Tree.Shift
import SprigCompiler.Text.Source

/-!
Tokens of one text below another.

Outside of strings a line break ends every piece and finishes every word.  So when a text is put on
the line below another one, the tokens of both stay what they are, and those of the second move
down.
-/

namespace SprigCompiler

open Movable (move)

/-- Whether a text ends inside a string: its last piece is a string without a closing quote. -/
def EndsInString (text : String) : Prop :=
  ∃ piece ∈ (pieces text.toList).getLast?, piece.1 = .string ∧ '"' ∉ piece.2.tail

def Shift.below (text : String) : Shift :=
  ⟨text.toList.count '\n' + 1, text.utf8ByteSize + 1⟩

instance : Movable Piece :=
  ⟨fun shift piece => { piece with first := move shift piece.first, last := move shift piece.last }⟩

variable {front behind : List Char} (shift : Shift)

private theorem Place.after_move (place : Place) (character : Char) :
    (move shift place).after character = move shift (place.after character) := by
  simp only [Place.after, Position.after, move, Place.mk.injEq]
  constructor
  · split
    · simp only [Position.mk.injEq, and_true]
      omega
    · rfl
  · omega

private theorem Place.afterAll_move (place : Place) (characters : List Char) :
    (move shift place).afterAll characters = move shift (place.afterAll characters) := by
  unfold Place.afterAll
  induction characters generalizing place with
  | nil => rfl
  | cons first rest inductionHypothesis =>
      rw [List.foldl_cons, List.foldl_cons, Place.after_move, inductionHypothesis]

theorem Place.afterAll_append (place : Place) (first second : List Char) :
    place.afterAll (first ++ second) = (place.afterAll first).afterAll second :=
  List.foldl_append

theorem Place.position_afterAll (place : Place) (characters : List Char) :
    (place.afterAll characters).position = place.position.afterAll characters := by
  unfold Place.afterAll Position.afterAll
  induction characters generalizing place with
  | nil => rfl
  | cons first rest inductionHypothesis =>
      rw [List.foldl_cons, List.foldl_cons, inductionHypothesis]
      rfl

private theorem Position.line_afterAll (position : Position) (characters : List Char) :
    (position.afterAll characters).line = position.line + characters.count '\n' := by
  unfold Position.afterAll
  induction characters generalizing position with
  | nil => rfl
  | cons first rest inductionHypothesis =>
      rw [List.foldl_cons, inductionHypothesis, List.count_cons]
      by_cases isNewline : first = '\n'
      · have next : (position.after first).line = position.line + 1 := by
          rw [Position.after, if_pos isNewline]
        rw [next, if_pos (beq_iff_eq.mpr isNewline)]
        omega
      · have same : (position.after first).line = position.line := by
          rw [Position.after, if_neg isNewline]
        rw [same, if_neg (by rwa [beq_iff_eq]), Nat.add_zero]

theorem Place.offset_afterAll (place : Place) (characters : List Char) :
    (place.afterAll characters).offset =
      place.offset + (String.ofList characters).utf8ByteSize := by
  unfold Place.afterAll
  induction characters generalizing place with
  | nil => rfl
  | cons first rest inductionHypothesis =>
      rw [List.foldl_cons, inductionHypothesis, String.ofList_cons, String.utf8ByteSize_append,
        String.utf8ByteSize_singleton]
      exact Nat.add_assoc _ _ _

/-- The line below a text starts where its start moves. -/
theorem Place.origin_below (text : String) :
    (Place.origin.afterAll text.toList).after '\n' = move (.below text) Place.origin := by
  have line : (Place.origin.afterAll text.toList).position.line = 1 + text.toList.count '\n' := by
    rw [Place.position_afterAll, Position.line_afterAll]
    rfl
  have offset : (Place.origin.afterAll text.toList).offset = text.utf8ByteSize := by
    rw [Place.offset_afterAll, String.ofList_toList]
    exact Nat.zero_add _
  unfold Place.after Position.after
  rw [if_pos rfl, line, offset, Nat.add_assoc]
  exact congrArg (Place.mk _) (Nat.zero_add _).symm

theorem toList_below (text other : String) :
    (text ++ "\n" ++ other).toList = text.toList ++ '\n' :: other.toList := by
  simp

theorem Piece.cut_move (place : Place) (text : List Char) :
    Piece.cut (move shift place) text = move shift (Piece.cut place text) := by
  induction text using Piece.split_induction generalizing place with
  | nil =>
      rw [Piece.cut, Piece.cut]
      rfl
  | cons first rest inductionHypothesis =>
      rw [Piece.cut, Piece.cut, Shift.move_cons, Place.afterAll_move,
        inductionHypothesis _]
      rfl

private theorem Piece.cut_append (place : Place) (apart : Apart front behind) :
    Piece.cut place (front ++ behind) =
      Piece.cut place front ++ Piece.cut (place.afterAll front) behind := by
  induction front using Piece.split_induction generalizing place with
  | nil =>
      rw [Piece.cut]
      rfl
  | cons first rest inductionHypothesis =>
      have whole : place.afterAll (first :: rest) =
          (place.afterAll (first :: (Piece.split first rest).2.1)).afterAll
            (Piece.split first rest).2.2 := by
        rw [← Place.afterAll_append, List.cons_append, Piece.split_append]
      rw [List.cons_append, Piece.cut, Piece.cut, apart.split_append,
        inductionHypothesis _ apart.of_cons, whole]
      rfl

/-- A newline goes on with an open string and with a carriage return, and with nothing else. -/
theorem Piece.takes_newline {kind : PieceKind} {inside : List Char}
    (taken : Piece.takes kind inside '\n' = true) :
    kind = .string ∧ '"' ∉ inside ∨ kind = .stray '\r' := by
  unfold Piece.takes at taken
  split at taken
  · refine .inl ⟨rfl, ?_⟩
    simpa using taken
  all_goals first | exact .inr rfl | cases taken

/-- A line break is apart from every text that has no stray character and does not end in a
string. -/
theorem apart_newline {text : String} (closed : ¬EndsInString text)
    (noStray : Token.firstStray? (Piece.cut .origin text.toList) = none) :
    Apart text.toList ('\n' :: behind) := by
  intro piece isLast
  refine ⟨?_, fun _ => rfl⟩
  rintro next (isNext : some '\n' = some next)
  cases isNext
  rw [← Bool.not_eq_true]
  intro taken
  rcases Piece.takes_newline taken with ⟨isString, isOpen⟩ | isReturn
  · exact closed ⟨piece, isLast, isString, isOpen⟩
  · have isMember := List.mem_of_getLast? isLast
    obtain ⟨found, isFound, rfl⟩ := List.mem_map.mp isMember
    have plain := (firstStray?_eq_none_iff _).mp noStray found isFound
    unfold Piece.stray? at plain
    rw [show found.kind = .stray '\r' from isReturn] at plain
    cases plain

private theorem isFinishedBefore_move (pieces : List Piece) :
    Token.isFinishedBefore (move shift pieces) = Token.isFinishedBefore pieces := by
  cases pieces <;> rfl

theorem ofPieces_move (pieces : List Piece) :
    Token.ofPieces (move shift pieces) = move shift (Token.ofPieces pieces) := by
  induction pieces with
  | nil => rfl
  | cons piece rest inductionHypothesis =>
      have reading : Token.reading? (Token.isFinishedBefore (move shift rest)) (move shift piece) =
          Token.reading? (Token.isFinishedBefore rest) piece := by
        rw [isFinishedBefore_move]
        rfl
      rw [Shift.move_cons, Token.ofPieces, Token.ofPieces, reading, inductionHypothesis]
      cases Token.reading? (Token.isFinishedBefore rest) piece <;> rfl

private theorem firstStray?_move (pieces : List Piece) :
    Token.firstStray? (move shift pieces) = move shift (Token.firstStray? pieces) := by
  unfold Token.firstStray?
  induction pieces with
  | nil => rfl
  | cons piece rest inductionHypothesis =>
      have stray : (move shift piece).stray? = piece.stray? := rfl
      rw [Shift.move_cons, List.findSome?_cons, List.findSome?_cons, inductionHypothesis, stray]
      cases piece.stray? <;> rfl

/-- What comes behind a line break does not change the tokens before it. -/
theorem ofPieces_append {others : List Piece}
    (finished : Token.isFinishedBefore others = true) (pieces : List Piece) :
    Token.ofPieces (pieces ++ others) = Token.ofPieces pieces ++ Token.ofPieces others := by
  induction pieces with
  | nil => rfl
  | cons piece rest inductionHypothesis =>
      have same : Token.isFinishedBefore (rest ++ others) = Token.isFinishedBefore rest := by
        cases rest with
        | nil => exact finished
        | cons => rfl
      rw [List.cons_append, Token.ofPieces, Token.ofPieces, same, inductionHypothesis]
      cases Token.reading? (Token.isFinishedBefore rest) piece <;> rfl

theorem ofText?_eq (content : String) :
    Token.ofText? true content =
      match Token.firstStray? (Piece.cut .origin content.toList) with
      | some error => .error error
      | none => .ok (Token.ofPieces (Piece.cut .origin content.toList)) := by
  unfold Token.ofText?
  cases isStray : Token.firstStray? (Piece.cut .origin content.toList) with
  | some error => simp only [isStray, if_true]
  | none =>
      have kept := List.filter_eq_self.mpr ((firstStray?_eq_none_iff _).mp isStray)
      simp only [isStray, if_true, kept]

/-- The tokens of a text on the line below another one: the tokens of the first, and then those of
the second, moved down.  If the second has a stray character, that error moves down. -/
theorem ofText?_below {text other : String} {tokens : List Token}
    (read : Token.ofText? true text = .ok tokens) (closed : ¬EndsInString text) :
    Token.ofText? true (text ++ "\n" ++ other) =
      (move (.below text) (Token.ofText? true other)).map (tokens ++ ·) := by
  rw [ofText?_eq] at read
  cases noStray : Token.firstStray? (Piece.cut .origin text.toList) with
  | some error =>
      rw [noStray] at read
      cases read
  | none =>
      rw [noStray] at read
      obtain rfl := Except.ok.inj read
      have newline : ∀ place, Piece.cut place ('\n' :: other.toList) =
          ⟨.lineBreak, ['\n'], place, place.after '\n'⟩ ::
            Piece.cut (place.after '\n') other.toList := by
        intro place
        rw [Piece.cut]
        rfl
      rw [ofText?_eq, ofText?_eq, toList_below,
        Piece.cut_append _ (apart_newline closed noStray), newline, Place.origin_below,
        Piece.cut_move]
      have stray : ∀ place, Token.firstStray? (Piece.cut .origin text.toList ++
          ⟨.lineBreak, ['\n'], place, move (.below text) Place.origin⟩ ::
            move (.below text) (Piece.cut .origin other.toList)) =
          move (.below text) (Token.firstStray? (Piece.cut .origin other.toList)) := by
        intro place
        rw [← firstStray?_move]
        unfold Token.firstStray? at noStray ⊢
        rw [List.findSome?_append, noStray]
        rfl
      rw [stray, ofPieces_append rfl]
      cases Token.firstStray? (Piece.cut .origin other.toList) with
      | some error => rfl
      | none =>
          refine congrArg Except.ok (congrArg _ ?_)
          exact ofPieces_move _ _

/-! ### Lenient reading -/

/-- The pieces of a text and of another one below it, without the stray ones.  A stray carriage
return at the end of the first becomes a part of the line break between them. -/
theorem filter_cut_below (place : Place)
    (closed : ∀ piece ∈ (pieces front).getLast?, piece.1 = .string → '"' ∈ piece.2.tail) :
    ∃ lineBreak : Piece, lineBreak.kind = .lineBreak ∧
      (Piece.cut place (front ++ '\n' :: behind)).filter (·.stray?.isNone) =
        (Piece.cut place front).filter (·.stray?.isNone) ++ lineBreak ::
          (Piece.cut ((place.afterAll front).after '\n') behind).filter (·.stray?.isNone) := by
  induction front using Piece.split_induction generalizing place with
  | nil =>
      refine ⟨⟨.lineBreak, ['\n'], place, place.after '\n'⟩, rfl, ?_⟩
      rw [List.nil_append, Piece.cut, Piece.cut]
      rfl
  | cons first rest inductionHypothesis =>
      by_cases goesOn : (Piece.split first rest).2.2 = [] ∧
          Piece.takes (Piece.split first rest).1 (Piece.split first rest).2.1 '\n' = true
      · obtain ⟨isLast, taken⟩ := goesOn
        have last := closed ((Piece.split first rest).1, first :: (Piece.split first rest).2.1) (by
          rw [pieces_cons, isLast]
          unfold pieces
          rw [Piece.cut]
          rfl)
        rcases Piece.takes_newline taken with ⟨isString, isOpen⟩ | isReturn
        · exact absurd (last isString) isOpen
        · have isStray : (Piece.split first rest).1.isStray = true := by
            rw [isReturn]
            rfl
          have alone := Piece.split_of_isStray isStray
          rw [alone] at isLast isReturn
          obtain rfl : first = '\r' := PieceKind.stray.inj isReturn
          obtain rfl : rest = [] := isLast
          refine ⟨⟨.lineBreak, ['\r', '\n'], place, place.afterAll ['\r', '\n']⟩, rfl, ?_⟩
          rw [List.cons_append, Piece.cut, Piece.cut, alone, Piece.cut]
          rfl
      · have alone : (Piece.split first rest).2.2 = [] → ∀ next ∈ ('\n' :: behind).head?,
            Piece.takes (Piece.split first rest).1 (Piece.split first rest).2.1 next = false := by
          rintro isLast next (isNext : some '\n' = some next)
          cases isNext
          exact Bool.eq_false_iff.mpr fun taken => goesOn ⟨isLast, taken⟩
        have whole : place.afterAll (first :: rest) =
            (place.afterAll (first :: (Piece.split first rest).2.1)).afterAll
              (Piece.split first rest).2.2 := by
          rw [← Place.afterAll_append, List.cons_append, Piece.split_append]
        obtain ⟨lineBreak, isBreak, same⟩ := inductionHypothesis
          (place.afterAll (first :: (Piece.split first rest).2.1)) (by
            intro piece isLast
            apply closed piece
            rw [pieces_cons, List.getLast?_cons, Option.mem_def.mp isLast]
            rfl)
        refine ⟨lineBreak, isBreak, ?_⟩
        rw [List.cons_append, Piece.cut, Piece.split_append_of_apart alone, Piece.cut,
          List.filter_cons, List.filter_cons, same, whole]
        split <;> rfl

private theorem filter_move (pieces : List Piece) :
    (move shift pieces).filter (·.stray?.isNone) = move shift (pieces.filter (·.stray?.isNone)) :=
  List.filter_map

private theorem closed_of_not_endsInString {text : String} (closed : ¬EndsInString text) :
    ∀ piece ∈ (pieces text.toList).getLast?, piece.1 = .string → '"' ∈ piece.2.tail := by
  intro piece isLast isString
  by_contra isOpen
  exact closed ⟨piece, isLast, isString, isOpen⟩

/-- Read leniently, a text on the line below another one is read as it is alone, and moved down. -/
theorem ofText?_below_lenient {text other : String} {tokens : List Token}
    (read : Token.ofText? false text = .ok tokens) (closed : ¬EndsInString text) :
    Token.ofText? false (text ++ "\n" ++ other) =
      (move (.below text) (Token.ofText? false other)).map (tokens ++ ·) := by
  obtain rfl := Except.ok.inj read
  obtain ⟨lineBreak, isBreak, whole⟩ :=
    @filter_cut_below _ other.toList .origin (closed_of_not_endsInString closed)
  have finished : Token.isFinishedBefore (lineBreak :: move (.below text)
      ((Piece.cut .origin other.toList).filter (·.stray?.isNone))) = true := by
    change lineBreak.isBoundary = true
    unfold Piece.isBoundary
    rw [isBreak]
    rfl
  have noToken : ∀ finished, Token.reading? finished lineBreak = none := by
    intro finished
    unfold Token.reading?
    rw [isBreak]
  have kept : ∀ content : String, Token.ofText? false content =
      .ok (Token.ofPieces ((Piece.cut .origin content.toList).filter (·.stray?.isNone))) :=
    fun _ => rfl
  rw [Place.origin_below, Piece.cut_move, filter_move] at whole
  rw [kept, kept, toList_below, whole, ofPieces_append finished, Token.ofPieces, noToken]
  exact congrArg Except.ok (congrArg _ (ofPieces_move _ _))

/-! ### Line by line -/

/-- Outside of strings a text is read line by line, strictly and leniently: the tokens of a text on
the line below another one are those it has alone, further down, and so is its error. -/
theorem ofText?_line_below (strict : Bool) {text : String} {tokens : List Token}
    (read : Token.ofText? strict text = .ok tokens) (closed : ¬EndsInString text)
    (other : String) :
    Token.ofText? strict (text ++ "\n" ++ other) =
      match Token.ofText? strict other with
      | .ok others => .ok (tokens ++ others.map fun token =>
          { token with location := ⟨token.location.line + (text.toList.count '\n' + 1),
            token.location.column, token.location.start + (text.utf8ByteSize + 1),
            token.location.stop + (text.utf8ByteSize + 1)⟩ })
      | .error error => .error { error with
          position := ⟨error.position.line + (text.toList.count '\n' + 1),
            error.position.column⟩ } := by
  have below : Token.ofText? strict (text ++ "\n" ++ other) =
      (move (.below text) (Token.ofText? strict other)).map (tokens ++ ·) := by
    cases strict with
    | true => exact ofText?_below read closed
    | false => exact ofText?_below_lenient read closed
  rw [below]
  cases Token.ofText? strict other <;> rfl

/-- A carriage return at the end of a text goes into the line break, and the word before it stays
reserved. -/
theorem ofText?_line_below_return :
    Token.ofText? false ("let\r" ++ "\n" ++ "é x") =
      .ok [⟨.keyword .letWord, "let", ⟨1, 0, 0, 3⟩⟩, ⟨.identifier, "x", ⟨2, 2, 8, 9⟩⟩] := by
  have read : Token.ofText? false "let\r" = .ok [⟨.keyword .letWord, "let", ⟨1, 0, 0, 3⟩⟩] := by
    decide +kernel
  have closed : ¬EndsInString "let\r" := by
    have isLast : (pieces "let\r".toList).getLast? = some (.stray '\r', ['\r']) := by
      decide +kernel
    rintro ⟨piece, isPiece, isString, _⟩
    rw [isLast] at isPiece
    cases isPiece
    cases isString
  have readOther : Token.ofText? false "é x" = .ok [⟨.identifier, "x", ⟨1, 2, 3, 4⟩⟩] := by
    decide +kernel
  rw [ofText?_line_below false read closed, readOther]
  decide +kernel

end SprigCompiler
