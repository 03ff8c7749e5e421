import SprigCompiler.Proofs.Token.Lexemes

/-!
Pieces as longest matches.

A piece can be described without saying how it is found.  Each kind of pieces has a pattern, and a
text is cut by taking away, again and again, the longest start of it that fits a pattern, or one
stray character where no start fits.  There is one way to do this, and cutting finds it.
-/

namespace SprigCompiler

def signs : List (Char × TokenKind) :=
  [('|', .operator .union), ('=', .operator .assign), ('*', .operator .asterisk),
    ('/', .operator .slash), ('+', .operator .plus), ('-', .operator .minus),
    ('\x7b', .openBrace), ('\x7d', .closeBrace), ('(', .openParen), (')', .closeParen),
    ('<', .openAngle), ('>', .closeAngle), (',', .comma)]

inductive Pattern : PieceKind → List Char → Prop where
  | openString {inside : List Char} (noQuote : '"' ∉ inside) : Pattern .string ('"' :: inside)
  | closedString {inside : List Char} (noQuote : '"' ∉ inside) :
      Pattern .string ('"' :: (inside ++ ['"']))
  | number {sign digits : List Char} (signed : sign ∈ [[], ['+'], ['-']]) (nonempty : digits ≠ [])
      (numeric : ∀ character ∈ digits, character.isDigit = true ∨ character = '.') :
      Pattern .number (sign ++ digits)
  | word {letters : List Char} (nonempty : letters ≠ [])
      (alphabetic : ∀ character ∈ letters, character.isAlpha = true ∨ character = '_') :
      Pattern .word letters
  | sign {character : Char} {kind : TokenKind} (isSign : (character, kind) ∈ signs) :
      Pattern (.sign kind) [character]
  | blank {blanks : List Char} (nonempty : blanks ≠ [])
      (empty : ∀ character ∈ blanks, character = ' ' ∨ character = '\t') : Pattern .blank blanks
  | lineBreak {before : List Char} (carriage : before ∈ [[], ['\r']]) :
      Pattern .lineBreak (before ++ ['\n'])

/-- Whether some characters in front of a text fit a pattern and are the longest start of both that
fits any. -/
structure Longest (kind : PieceKind) (characters rest : List Char) : Prop where
  fits : Pattern kind characters
  longest : ∀ (otherKind : PieceKind) (other : List Char), Pattern otherKind other →
    other <+: characters ++ rest → other.length ≤ characters.length

/-- Whether a text is cut into pieces from left to right, each the longest that fits a pattern, or
a stray character where nothing fits. -/
inductive Munched : List Char → List (PieceKind × List Char) → Prop where
  | nothing : Munched [] []
  | piece {kind : PieceKind} {characters rest : List Char} {pieces : List (PieceKind × List Char)}
      (longest : Longest kind characters rest) (others : Munched rest pieces) :
      Munched (characters ++ rest) ((kind, characters) :: pieces)
  | stray {first : Char} {rest : List Char} {pieces : List (PieceKind × List Char)}
      (noPattern : ∀ (kind : PieceKind) (characters : List Char), Pattern kind characters →
        ¬characters <+: first :: rest) (others : Munched rest pieces) :
      Munched (first :: rest) ((.stray first, [first]) :: pieces)

namespace Piece

variable {first : Char} {rest more inside : List Char} {condition : Char → Bool}
  {kind : PieceKind}

theorem isNumberCharacter_iff {character : Char} :
    isNumberCharacter character = true ↔ character.isDigit = true ∨ character = '.' := by
  rw [isNumberCharacter, Bool.or_eq_true, beq_iff_eq]

theorem isWordCharacter_iff {character : Char} :
    isWordCharacter character = true ↔ character.isAlpha = true ∨ character = '_' := by
  rw [isWordCharacter, Bool.or_eq_true, beq_iff_eq]

theorem isBlankCharacter_iff {character : Char} :
    isBlankCharacter character = true ↔ character = ' ' ∨ character = '\t' := by
  rw [isBlankCharacter, Bool.or_eq_true, beq_iff_eq, beq_iff_eq]

private theorem ofSign?_eq_some_iff {character : Char} {kind : TokenKind} :
    TokenKind.ofSign? character = some kind ↔ (character, kind) ∈ signs := by
  constructor
  · intro isSign
    unfold TokenKind.ofSign? at isSign
    split at isSign
    all_goals cases isSign
    all_goals decide
  · intro isListed
    simp only [signs, List.mem_cons, Prod.mk.injEq, List.not_mem_nil, or_false] at isListed
    rcases isListed with h | h | h | h | h | h | h | h | h | h | h | h | h
    all_goals
      obtain ⟨rfl, rfl⟩ := h
      rfl

private theorem pattern_run (isFirst : condition first = true) (rest : List Char) :
    ∀ character ∈ first :: rest.takeWhile condition, condition character = true := by
  intro character isPart
  rcases List.mem_cons.mp isPart with rfl | isLater
  · exact isFirst
  · exact List.mem_takeWhile_imp isLater

private theorem pattern_string (rest : List Char) : Pattern .string ('"' :: (string rest).2.1) := by
  have noQuote : '"' ∉ rest.takeWhile (· ≠ '"') := by
    intro isMember
    have differs := List.mem_takeWhile_imp isMember
    simp at differs
  unfold string
  cases behind : rest.dropWhile (· ≠ '"') with
  | nil => exact .openString noQuote
  | cons quote others =>
      have isQuote : quote = '"' := by
        have stops := List.head?_dropWhile_not (· ≠ '"') rest
        rw [behind] at stops
        simpa using stops
      subst isQuote
      exact .closedString noQuote

private theorem pattern_number {sign : List Char} (signed : sign ∈ [[], ['+'], ['-']])
    (isNumber : isNumberCharacter first = true) (rest : List Char) :
    Pattern .number (sign ++ first :: rest.takeWhile isNumberCharacter) :=
  .number signed (List.cons_ne_nil _ _) fun character isPart =>
    isNumberCharacter_iff.mp (pattern_run isNumber rest character isPart)

private theorem pattern_signed {kind : TokenKind} (isSign : (first, kind) ∈ signs)
    (isSigned : [first] ∈ [[], ['+'], ['-']]) (rest : List Char) :
    Pattern (signed kind rest).1 (first :: (signed kind rest).2.1) := by
  cases rest with
  | nil => exact .sign isSign
  | cons next rest =>
      unfold Piece.signed
      by_cases isNumber : isNumberCharacter next = true
      · simp only [if_pos isNumber]
        unfold run
        rw [List.takeWhile_cons_of_pos isNumber]
        exact pattern_number isSigned isNumber rest
      · simp only [if_neg isNumber]
        exact .sign isSign

/-- What is split off is a stray character or fits the pattern of its kind. -/
theorem pattern_split (first : Char) (rest : List Char)
    (noStray : (split first rest).1.isStray = false) :
    Pattern (split first rest).1 (first :: (split first rest).2.1) := by
  unfold split at noStray ⊢
  split_ifs at noStray ⊢ with isQuote isNumber isWord isBlank isNewline isReturn isPlus isMinus
  · subst isQuote
    rw [string_kind]
    exact pattern_string rest
  · exact pattern_number List.mem_cons_self isNumber rest
  · exact .word (List.cons_ne_nil _ _) fun character isPart =>
      isWordCharacter_iff.mp (pattern_run isWord rest character isPart)
  · exact .blank (List.cons_ne_nil _ _) fun character isPart =>
      isBlankCharacter_iff.mp (pattern_run isBlank rest character isPart)
  · subst isNewline
    exact .lineBreak List.mem_cons_self
  · subst isReturn
    unfold carriageReturn at noStray ⊢
    split at noStray
    · split at noStray
      · rename_i isNewline
        rw [if_pos isNewline, isNewline]
        exact @Pattern.lineBreak ['\r'] (by decide)
      · cases noStray
    · cases noStray
  · subst isPlus
    have isSign : ('+', .operator .plus) ∈ signs := by decide
    exact pattern_signed isSign (by decide) rest
  · subst isMinus
    have isSign : ('-', .operator .minus) ∈ signs := by decide
    exact pattern_signed isSign (by decide) rest
  · cases isSign : TokenKind.ofSign? first with
    | some kind => exact .sign (ofSign?_eq_some_iff.mp isSign)
    | none =>
        rw [isSign] at noStray
        cases noStray

theorem split_of_isStray (isStray : (split first rest).1.isStray = true) :
    split first rest = (.stray first, [], rest) := by
  unfold split at isStray ⊢
  split_ifs at isStray ⊢ with isQuote isNumber isWord isBlank isNewline isReturn isPlus isMinus
  · rw [string_kind] at isStray
    cases isStray
  · cases isStray
  · cases isStray
  · cases isStray
  · cases isStray
  · subst isReturn
    unfold carriageReturn at isStray ⊢
    split at isStray
    · split at isStray
      · cases isStray
      · rename_i noNewline
        rw [if_neg noNewline]
    · rfl
  · rcases signed_kind (.operator .plus) rest with isNumber | isSign
    · rw [isNumber] at isStray
      cases isStray
    · rw [isSign] at isStray
      cases isStray
  · rcases signed_kind (.operator .minus) rest with isNumber | isSign
    · rw [isNumber] at isStray
      cases isStray
    · rw [isSign] at isStray
      cases isStray
  · cases isSign : TokenKind.ofSign? first with
    | some kind =>
        rw [isSign] at isStray
        cases isStray
    | none => rfl

/-! ### No pattern fits more -/

private theorem length_le_takeWhile (all : ∀ character ∈ inside, condition character = true)
    (starts : inside <+: rest) : inside.length ≤ (rest.takeWhile condition).length := by
  obtain ⟨behind, rfl⟩ := starts
  rw [List.takeWhile_append_of_pos all, List.length_append]
  exact Nat.le_add_right _ _

/-- Whether the piece at the start of a text is not stray and at least as long as some
characters. -/
def Reaches (first : Char) (rest characters : List Char) : Prop :=
  (split first rest).1.isStray = false ∧ characters.length ≤ (split first rest).2.1.length + 1

private theorem reaches_run (isRun : split first rest = run kind condition rest)
    (noStray : kind.isStray = false)
    (all : ∀ character ∈ inside, condition character = true) (starts : inside <+: rest) :
    Reaches first rest (first :: inside) := by
  unfold Reaches
  rw [isRun]
  exact ⟨noStray, Nat.succ_le_succ (length_le_takeWhile all starts)⟩

private theorem reaches_openString (noQuote : '"' ∉ inside) (starts : inside <+: rest) :
    Reaches '"' rest ('"' :: inside) := by
  have all : ∀ character ∈ inside, decide (character ≠ '"') = true := by
    intro character isMember
    rw [decide_eq_true_eq]
    rintro rfl
    exact noQuote isMember
  have within := length_le_takeWhile all starts
  change (string rest).1.isStray = false ∧ inside.length + 1 ≤ (string rest).2.1.length + 1
  refine ⟨by rw [string_kind]; rfl, Nat.succ_le_succ ?_⟩
  unfold string
  cases rest.dropWhile (· ≠ '"') with
  | nil => exact within
  | cons quote others =>
      rw [List.length_append]
      exact Nat.le_add_right_of_le within

private theorem reaches_closedString (noQuote : '"' ∉ inside) (starts : inside ++ ['"'] <+: rest) :
    Reaches '"' rest ('"' :: (inside ++ ['"'])) := by
  obtain ⟨others, rfl⟩ := starts
  rw [List.append_assoc]
  have isString : split '"' (inside ++ (['"'] ++ others)) = (.string, inside ++ ['"'], others) :=
    string_eq noQuote others
  unfold Reaches
  rw [isString]
  exact ⟨rfl, Nat.le_refl _⟩

private theorem sign_cases {sign : List Char} (signed : sign ∈ [[], ['+'], ['-']]) :
    sign = [] ∨ ∃ character, sign = [character] ∧ (character = '+' ∨ character = '-') := by
  simp only [List.mem_cons, List.not_mem_nil, or_false] at signed
  rcases signed with rfl | rfl | rfl
  · exact .inl rfl
  · exact .inr ⟨'+', rfl, .inl rfl⟩
  · exact .inr ⟨'-', rfl, .inr rfl⟩

/-- A sign before a number belongs to it. -/
theorem split_signed {sign : Char} (isSigned : sign = '+' ∨ sign = '-') {next : Char}
    (isNumber : isNumberCharacter next = true) (rest : List Char) :
    split sign (next :: rest) = run .number isNumberCharacter (next :: rest) := by
  rcases isSigned with rfl | rfl
  · exact if_pos isNumber
  · exact if_pos isNumber

private theorem reaches_number {sign digits : List Char} (signed : sign ∈ [[], ['+'], ['-']])
    (nonempty : digits ≠ [])
    (numeric : ∀ character ∈ digits, isNumberCharacter character = true)
    (starts : sign ++ digits <+: first :: rest) : Reaches first rest (sign ++ digits) := by
  obtain ⟨digit, others, rfl⟩ := List.exists_cons_of_ne_nil nonempty
  have isNumber := numeric digit List.mem_cons_self
  rcases sign_cases signed with rfl | ⟨character, rfl, isSign⟩
  · obtain ⟨rfl, follows⟩ := List.cons_prefix_cons.mp starts
    exact reaches_run (split_number isNumber rest) rfl
      (fun character isLater => numeric character (List.mem_cons_of_mem _ isLater)) follows
  · obtain ⟨rfl, follows⟩ := List.cons_prefix_cons.mp starts
    obtain ⟨behind, rfl⟩ := follows
    exact reaches_run (split_signed isSign isNumber _) rfl numeric (List.prefix_append _ _)

private theorem reaches_sign {character : Char} {kind : TokenKind}
    (isSign : (character, kind) ∈ signs)
    (rest : List Char) : Reaches character rest [character] := by
  refine ⟨?_, Nat.le_add_left _ _⟩
  have signed : ∀ kind, (Piece.signed kind rest).1.isStray = false := by
    intro kind
    rcases signed_kind kind rest with isNumber | isSign
    · rw [isNumber]
      rfl
    · rw [isSign]
      rfl
  simp only [signs, List.mem_cons, Prod.mk.injEq, List.not_mem_nil, or_false] at isSign
  rcases isSign with h | h | h | h | h | h | h | h | h | h | h | h | h
  all_goals
    obtain ⟨rfl, rfl⟩ := h
    first
      | rfl
      | exact signed _

private theorem reaches_lineBreak {before : List Char} (carriage : before ∈ [[], ['\r']])
    (starts : before ++ ['\n'] <+: first :: rest) : Reaches first rest (before ++ ['\n']) := by
  simp only [List.mem_cons, List.not_mem_nil, or_false] at carriage
  rcases carriage with rfl | rfl
  · obtain ⟨rfl, _⟩ := List.cons_prefix_cons.mp starts
    exact ⟨rfl, Nat.le_refl _⟩
  · obtain ⟨rfl, follows⟩ := List.cons_prefix_cons.mp starts
    obtain ⟨behind, rfl⟩ := follows
    exact ⟨rfl, Nat.le_refl _⟩

/-- Whatever fits a pattern at the start of a text is no longer than the first piece. -/
theorem reaches_of_pattern {characters : List Char} (fits : Pattern kind characters)
    (starts : characters <+: first :: rest) : Reaches first rest characters := by
  cases fits with
  | openString noQuote =>
      obtain ⟨rfl, follows⟩ := List.cons_prefix_cons.mp starts
      exact reaches_openString noQuote follows
  | closedString noQuote =>
      obtain ⟨rfl, follows⟩ := List.cons_prefix_cons.mp starts
      exact reaches_closedString noQuote follows
  | number signed nonempty numeric =>
      exact reaches_number signed nonempty
        (fun character isMember => isNumberCharacter_iff.mpr (numeric character isMember)) starts
  | word nonempty alphabetic =>
      obtain ⟨letter, letters, rfl⟩ := List.exists_cons_of_ne_nil nonempty
      obtain ⟨rfl, follows⟩ := List.cons_prefix_cons.mp starts
      have isWord := isWordCharacter_iff.mpr (alphabetic letter List.mem_cons_self)
      exact reaches_run (split_word isWord rest) rfl (fun character isLater =>
        isWordCharacter_iff.mpr (alphabetic character (List.mem_cons_of_mem _ isLater))) follows
  | sign isSign =>
      obtain ⟨rfl, _⟩ := List.cons_prefix_cons.mp starts
      exact reaches_sign isSign rest
  | blank nonempty empty =>
      obtain ⟨blank, blanks, rfl⟩ := List.exists_cons_of_ne_nil nonempty
      obtain ⟨rfl, follows⟩ := List.cons_prefix_cons.mp starts
      have isBlank := isBlankCharacter_iff.mpr (empty blank List.mem_cons_self)
      exact reaches_run (split_blank isBlank rest) rfl (fun character isLater =>
        isBlankCharacter_iff.mpr (empty character (List.mem_cons_of_mem _ isLater))) follows
  | lineBreak carriage => exact reaches_lineBreak carriage starts

/-! ### The cut -/

private theorem longest_split (noStray : (split first rest).1.isStray = false) :
    Longest (split first rest).1 (first :: (split first rest).2.1) (split first rest).2.2 where
  fits := pattern_split first rest noStray
  longest otherKind other fits starts := by
    rw [List.cons_append, split_append] at starts
    exact (reaches_of_pattern fits starts).2

end Piece

variable {kind : PieceKind} {characters rest : List Char}

theorem Pattern.ne_nil (fits : Pattern kind characters) : characters ≠ [] := by
  cases fits with
  | number signed nonempty => exact List.append_ne_nil_of_right_ne_nil _ nonempty
  | word nonempty => exact nonempty
  | blank nonempty => exact nonempty
  | lineBreak => exact List.append_ne_nil_of_right_ne_nil _ (List.cons_ne_nil _ _)
  | _ => exact List.cons_ne_nil _ _

/-- Characters that fit a pattern are by themselves a piece of its kind, so they fit no other. -/
theorem Pattern.kind_eq {first : Char} (fits : Pattern kind (first :: rest)) :
    (Piece.split first rest).1 = kind := by
  generalize whole : first :: rest = characters at fits
  cases fits with
  | openString | closedString =>
      obtain ⟨rfl, rfl⟩ := List.cons.inj whole
      exact Piece.string_kind _
  | @number sign digits signed nonempty numeric =>
      obtain ⟨digit, others, rfl⟩ := List.exists_cons_of_ne_nil nonempty
      have isNumber := Piece.isNumberCharacter_iff.mpr (numeric digit List.mem_cons_self)
      rcases Piece.sign_cases signed with rfl | ⟨character, rfl, isSign⟩
      · obtain ⟨rfl, rfl⟩ := List.cons.inj whole
        rw [Piece.split_number isNumber]
        rfl
      · have whole : first :: rest = character :: digit :: others := whole
        obtain ⟨rfl, rfl⟩ := List.cons.inj whole
        rw [Piece.split_signed isSign isNumber]
        rfl
  | word nonempty alphabetic =>
      subst whole
      have isWord := Piece.isWordCharacter_iff.mpr (alphabetic first List.mem_cons_self)
      rw [Piece.split_word isWord]
      rfl
  | sign isSign =>
      obtain ⟨rfl, rfl⟩ := List.cons.inj whole
      simp only [signs, List.mem_cons, Prod.mk.injEq, List.not_mem_nil, or_false] at isSign
      rcases isSign with h | h | h | h | h | h | h | h | h | h | h | h | h
      all_goals
        obtain ⟨rfl, rfl⟩ := h
        rfl
  | blank nonempty empty =>
      subst whole
      have isBlank := Piece.isBlankCharacter_iff.mpr (empty first List.mem_cons_self)
      rw [Piece.split_blank isBlank]
      rfl
  | lineBreak carriage =>
      simp only [List.mem_cons, List.not_mem_nil, or_false] at carriage
      rcases carriage with rfl | rfl
      all_goals
        obtain ⟨rfl, rfl⟩ := List.cons.inj whole
        rfl

/-- The longest start of a text that fits a pattern is what is split off. -/
theorem Longest.split_eq {first : Char} {more : List Char}
    (longest : Longest kind (first :: more) rest) :
    Piece.split first (more ++ rest) = (kind, more, rest) := by
  have whole := Piece.split_append first (more ++ rest)
  have reaches : Piece.Reaches first (more ++ rest) (first :: more) :=
    Piece.reaches_of_pattern longest.fits (List.prefix_append _ _)
  obtain ⟨noStray, atLeast⟩ := reaches
  have fits := Piece.pattern_split first (more ++ rest) noStray
  have starts : first :: (Piece.split first (more ++ rest)).2.1 <+: first :: more ++ rest := by
    rw [List.cons_append, List.cons_prefix_cons]
    exact ⟨rfl, _, whole⟩
  have atMost := longest.longest _ _ fits starts
  simp only [List.length_cons] at atLeast atMost
  -- Neither is longer than the other, and both start the same text.
  obtain ⟨sameInside, sameRest⟩ := List.append_inj whole (by omega)
  have sameKind : (Piece.split first (more ++ rest)).1 = kind := by
    rw [sameInside] at fits
    exact fits.kind_eq.symm.trans longest.fits.kind_eq
  exact Prod.ext sameKind (Prod.ext sameInside sameRest)

/-- Where nothing fits a pattern, the first character is stray. -/
theorem split_of_noPattern {first : Char}
    (noPattern : ∀ (kind : PieceKind) (characters : List Char), Pattern kind characters →
      ¬characters <+: first :: rest) : Piece.split first rest = (.stray first, [], rest) := by
  apply Piece.split_of_isStray
  cases isStray : (Piece.split first rest).1.isStray with
  | true => rfl
  | false =>
      refine absurd ?_ (noPattern _ _ (Piece.pattern_split first rest isStray))
      rw [List.cons_prefix_cons]
      exact ⟨rfl, _, Piece.split_append first rest⟩

private theorem noPattern_of_isStray {first : Char}
    (isStray : (Piece.split first rest).1.isStray = true) (kind : PieceKind)
    (characters : List Char) (fits : Pattern kind characters) :
    ¬characters <+: first :: rest := by
  intro starts
  have noStray := (Piece.reaches_of_pattern fits starts).1
  rw [isStray] at noStray
  cases noStray

theorem pieces_nil : pieces [] = [] := by
  unfold pieces
  rw [Piece.cut]
  rfl

theorem munched_pieces (text : List Char) : Munched text (pieces text) := by
  induction text using Piece.split_induction with
  | nil =>
      rw [pieces_nil]
      exact .nothing
  | cons first rest others =>
      rw [pieces_cons]
      cases isStray : (Piece.split first rest).1.isStray with
      | true =>
          rw [Piece.split_of_isStray isStray] at others ⊢
          exact .stray (noPattern_of_isStray isStray) others
      | false =>
          have whole := Munched.piece (Piece.longest_split isStray) others
          rw [List.cons_append, Piece.split_append] at whole
          exact whole

/-- There is one way to cut a text into longest matches. -/
theorem munched_iff {text : List Char} {found : List (PieceKind × List Char)} :
    Munched text found ↔ found = pieces text := by
  constructor
  · intro munched
    induction munched with
    | nothing => exact pieces_nil.symm
    | @piece kind characters rest found longest _ inductionHypothesis =>
        obtain ⟨first, more, rfl⟩ := List.exists_cons_of_ne_nil longest.fits.ne_nil
        rw [List.cons_append, pieces_cons, longest.split_eq, inductionHypothesis]
    | stray noPattern _ inductionHypothesis =>
        rw [pieces_cons, split_of_noPattern noPattern, inductionHypothesis]
  · rintro rfl
    exact munched_pieces text

end SprigCompiler
