import SprigCompiler.Token.Tokenize
import SprigCompiler.Proofs.Grammar.Basic
import SprigCompiler.Proofs.Token.Pieces

/-!
The lexemes of a text.

They are found from left to right, and where the text starts does not matter.  Cutting a text in two
and finding the lexemes of both parts gives the lexemes of the text, unless a piece reaches over the
cut or a word before the cut is finished on one side only.
-/

namespace SprigCompiler

namespace PieceKind

def isStray : PieceKind → Bool
  | stray _ => true
  | _ => false

def isBoundary (kind : PieceKind) : Bool := kind == .blank || kind == .lineBreak

end PieceKind

/-- Whether a word in front of a text is finished: the text is empty, or it starts with a blank or a
line break. -/
def finishes : List Char → Bool
  | [] => true
  | first :: rest =>
      Piece.isBlankCharacter first || first == '\n' || first == '\r' && rest.head? == some '\n'

def lexemeOf? (finished : Bool) (kind : PieceKind) (characters : List Char) : Option Lexeme :=
  (Token.reading? finished ⟨kind, characters, .origin, .origin⟩).map fun reading =>
    ⟨reading.1, reading.2⟩

def lexemesAmong? (pieces : List Piece) : Option (List Lexeme) :=
  if (Token.firstStray? pieces).isSome then none
  else some ((Token.ofPieces pieces).map Token.lexeme)

def lexemes? (text : List Char) : Option (List Lexeme) := lexemesAmong? (Piece.cut .origin text)

variable {first next : Char} {rest more front behind : List Char}

theorem finishes_of_ne (noBlank : ¬Piece.isBlankCharacter first = true) (noNewline : first ≠ '\n')
    (noReturn : first ≠ '\r') : finishes (first :: rest) = false := by
  rw [Bool.not_eq_true] at noBlank
  simp only [finishes, noBlank, beq_false_of_ne noNewline, beq_false_of_ne noReturn,
    Bool.false_and, Bool.or_false]

theorem finishes_of_condition {condition : Char → Bool} (holds : condition first = true)
    (fails : [' ', '\t', '\n', '\r'].any condition = false) : finishes (first :: rest) = false := by
  have differs : ∀ other ∈ [' ', '\t', '\n', '\r'], first ≠ other := by
    rintro other isOther rfl
    exact List.any_eq_false.mp fails first isOther holds
  refine finishes_of_ne ?_ (differs _ (by simp)) (differs _ (by simp))
  intro isBlank
  rcases Bool.or_eq_true_iff.mp isBlank with isSpace | isTab
  · exact differs ' ' (by simp) (beq_iff_eq.mp isSpace)
  · exact differs '\t' (by simp) (beq_iff_eq.mp isTab)

theorem isBoundary_split (first : Char) (rest : List Char) :
    (Piece.split first rest).1.isBoundary = finishes (first :: rest) := by
  unfold Piece.split
  split_ifs with isQuote isNumber isWord isBlank isNewline isReturn isPlus isMinus
  · rw [Piece.string_kind, isQuote]
    rfl
  · rw [finishes_of_condition isNumber rfl]
    rfl
  · rw [finishes_of_condition isWord rfl]
    rfl
  · simp only [finishes, isBlank, Bool.true_or]
    rfl
  · rw [isNewline]
    rfl
  · rw [isReturn]
    cases rest with
    | nil => rfl
    | cons next rest =>
        unfold Piece.carriageReturn
        by_cases isNewline : next = '\n'
        · rw [isNewline]
          rfl
        · simp only [isNewline, if_false]
          exact (beq_false_of_ne fun same => isNewline (Option.some.inj same)).symm
  · rw [isPlus]
    rcases Piece.signed_kind (.operator .plus) rest with isNumber | isSign
    · rw [isNumber]
      rfl
    · rw [isSign]
      rfl
  · rw [isMinus]
    rcases Piece.signed_kind (.operator .minus) rest with isNumber | isSign
    · rw [isNumber]
      rfl
    · rw [isSign]
      rfl
  · rw [finishes_of_ne isBlank isNewline isReturn]
    cases TokenKind.ofSign? first <;> rfl

theorem isFinishedBefore_cut (place : Place) (text : List Char) :
    Token.isFinishedBefore (Piece.cut place text) = finishes text := by
  cases text with
  | nil =>
      rw [Piece.cut]
      rfl
  | cons first rest =>
      rw [Piece.cut]
      exact isBoundary_split first rest

private theorem lexeme_ofPieces_cons (piece : Piece) (pieces : List Piece) :
    (Token.ofPieces (piece :: pieces)).map Token.lexeme =
      (lexemeOf? (Token.isFinishedBefore pieces) piece.kind piece.characters).toList ++
        (Token.ofPieces pieces).map Token.lexeme := by
  obtain ⟨kind, characters, first, last⟩ := piece
  cases kind <;> rfl

theorem lexemesAmong?_cons (piece : Piece) (pieces : List Piece) :
    lexemesAmong? (piece :: pieces) =
      if piece.kind.isStray then none
      else (lexemesAmong? pieces).map
        ((lexemeOf? (Token.isFinishedBefore pieces) piece.kind piece.characters).toList ++ ·) := by
  unfold lexemesAmong?
  rw [lexeme_ofPieces_cons]
  obtain ⟨kind, characters, first, last⟩ := piece
  by_cases isStray : kind.isStray = true
  · cases kind <;> first | rfl | cases isStray
  · have skipped : Token.firstStray? (⟨kind, characters, first, last⟩ :: pieces) =
        Token.firstStray? pieces := by
      cases kind <;> first | rfl | exact absurd rfl isStray
    rw [skipped, if_neg isStray]
    cases Token.firstStray? pieces <;> rfl

private theorem lexemesAmong?_cut (place other : Place) (text : List Char) :
    lexemesAmong? (Piece.cut place text) = lexemesAmong? (Piece.cut other text) := by
  induction text using Piece.split_induction generalizing place other with
  | nil =>
      rw [Piece.cut, Piece.cut]
  | cons first rest inductionHypothesis =>
      rw [Piece.cut, Piece.cut, lexemesAmong?_cons, lexemesAmong?_cons,
        isFinishedBefore_cut, isFinishedBefore_cut]
      rw [inductionHypothesis _ _]

theorem lexemes?_nil : lexemes? [] = some [] := by
  unfold lexemes?
  rw [Piece.cut]
  rfl

theorem lexemes?_cons (first : Char) (rest : List Char) :
    lexemes? (first :: rest) =
      if (Piece.split first rest).1.isStray then none
      else (lexemes? (Piece.split first rest).2.2).map
        ((lexemeOf? (finishes (Piece.split first rest).2.2) (Piece.split first rest).1
          (first :: (Piece.split first rest).2.1)).toList ++ ·) := by
  unfold lexemes?
  rw [Piece.cut, lexemesAmong?_cons, isFinishedBefore_cut, lexemesAmong?_cut _ .origin]

def pieces (text : List Char) : List (PieceKind × List Char) :=
  (Piece.cut .origin text).map fun piece => (piece.kind, piece.characters)

/-- Whether the last piece of a text ends where another text begins, and a word there is finished
by what follows. -/
def Apart (front behind : List Char) : Prop :=
  ∀ piece ∈ (pieces front).getLast?,
    (∀ next ∈ behind.head?, Piece.takes piece.1 piece.2.tail next = false) ∧
      (piece.1 = .word → finishes behind = true)

theorem map_cut (place other : Place) (text : List Char) :
    (Piece.cut place text).map (fun piece => (piece.kind, piece.characters)) =
      (Piece.cut other text).map fun piece => (piece.kind, piece.characters) := by
  induction text using Piece.split_induction generalizing place other with
  | nil => rw [Piece.cut, Piece.cut]
  | cons first rest inductionHypothesis =>
      rw [Piece.cut, Piece.cut, List.map_cons, List.map_cons]
      rw [inductionHypothesis _ _]

theorem pieces_cons (first : Char) (rest : List Char) :
    pieces (first :: rest) =
      ((Piece.split first rest).1, first :: (Piece.split first rest).2.1) ::
        pieces (Piece.split first rest).2.2 := by
  unfold pieces
  rw [Piece.cut, List.map_cons, map_cut _ .origin]

theorem Apart.of_cons (apart : Apart (first :: rest) behind) :
    Apart (Piece.split first rest).2.2 behind := by
  intro piece isLast
  apply apart piece
  rw [pieces_cons, List.getLast?_cons, Option.mem_def.mp isLast]
  rfl

theorem Apart.of_whole (apart : Apart (first :: rest) behind)
    (isWhole : (Piece.split first rest).2.2 = []) :
    (∀ next ∈ behind.head?,
      Piece.takes (Piece.split first rest).1 (Piece.split first rest).2.1 next = false) ∧
      ((Piece.split first rest).1 = .word → finishes behind = true) := by
  apply apart ((Piece.split first rest).1, first :: (Piece.split first rest).2.1)
  rw [pieces_cons, isWhole]
  unfold pieces
  rw [Piece.cut]
  rfl

theorem Apart.split_append (apart : Apart (first :: rest) behind) :
    Piece.split first (rest ++ behind) =
      ((Piece.split first rest).1, (Piece.split first rest).2.1,
        (Piece.split first rest).2.2 ++ behind) :=
  Piece.split_append_of_apart fun isWhole => (apart.of_whole isWhole).1

private theorem Apart.finishes_append (apart : Apart (first :: rest) behind) :
    finishes (first :: (rest ++ behind)) = finishes (first :: rest) := by
  rw [← isBoundary_split, ← isBoundary_split, apart.split_append]

/-- Only words depend on whether they are finished. -/
theorem lexemeOf?_eq {kind : PieceKind} {finished other : Bool} (characters : List Char)
    (same : kind = .word → finished = other) :
    lexemeOf? finished kind characters = lexemeOf? other kind characters := by
  cases kind with
  | word => rw [same rfl]
  | _ => rfl

theorem lexemes?_append (apart : Apart front behind) :
    lexemes? (front ++ behind) =
      (lexemes? front).bind fun earlier => (lexemes? behind).map (earlier ++ ·) := by
  induction front using Piece.split_induction with
  | nil =>
      rw [lexemes?_nil, List.nil_append, Option.bind_some]
      exact Option.map_id'.symm
  | cons first rest inductionHypothesis =>
      have later := inductionHypothesis apart.of_cons
      -- The first piece is the same with and without the second text, and so is what finishes it.
      have sameLexeme : ∀ characters,
          lexemeOf? (finishes ((Piece.split first rest).2.2 ++ behind))
            (Piece.split first rest).1 characters =
          lexemeOf? (finishes (Piece.split first rest).2.2) (Piece.split first rest).1
            characters := by
        intro characters
        refine lexemeOf?_eq characters ?_
        intro isWord
        have apartRest := apart.of_cons
        cases isRest : (Piece.split first rest).2.2 with
        | nil => exact (apart.of_whole isRest).2 isWord
        | cons second others =>
            rw [isRest] at apartRest
            exact apartRest.finishes_append
      rw [List.cons_append, lexemes?_cons, lexemes?_cons, apart.split_append, later, sameLexeme]
      by_cases isStray : (Piece.split first rest).1.isStray = true
      · rw [if_pos isStray, if_pos isStray, Option.bind_none]
      · rw [if_neg isStray, if_neg isStray]
        cases lexemes? (Piece.split first rest).2.2 with
        | none => rfl
        | some found =>
            cases lexemes? behind with
            | none => rfl
            | some others =>
                simp only [Option.bind_some, Option.map_some, List.append_assoc]

theorem Apart.append_right (apart : Apart front behind) (nonempty : behind ≠ [])
    (notFinished : finishes behind = false) (more : List Char) : Apart front (behind ++ more) := by
  intro piece isLast
  obtain ⟨stops, finished⟩ := apart piece isLast
  constructor
  · intro next isNext
    rw [List.head?_append_of_ne_nil _ nonempty] at isNext
    exact stops next isNext
  · intro isWord
    rw [finished isWord] at notFinished
    cases notFinished

theorem firstStray?_eq_none_iff (pieces : List Piece) :
    Token.firstStray? pieces = none ↔ ∀ piece ∈ pieces, piece.stray?.isNone = true := by
  unfold Token.firstStray?
  simp only [List.findSome?_eq_none_iff, Option.map_eq_none_iff, Option.isNone_iff_eq_none]

/-- The lexemes of a text are those of its tokens when it is read strictly. -/
theorem lexemes?_eq_ofText? (text : List Char) :
    lexemes? text =
      (Token.ofText? true (String.ofList text)).toOption.map (List.map Token.lexeme) := by
  unfold lexemes? lexemesAmong? Token.ofText?
  simp only [String.toList_ofList, if_true]
  cases isStray : Token.firstStray? (Piece.cut .origin text) with
  | some error => rfl
  | none =>
      have kept := List.filter_eq_self.mpr ((firstStray?_eq_none_iff _).mp isStray)
      simp only [kept]
      rfl

end SprigCompiler
