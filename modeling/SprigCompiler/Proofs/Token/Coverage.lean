import SprigCompiler.Proofs.Token.Reprinting
import SprigCompiler.Proofs.Token.Spans

/-!
What tokens leave over.

Between the tokens of a text there are blanks and line breaks, and whatever else lies there is
stray.  So the tokens that are read leniently tell whether the text can be read strictly, and where
it cannot.
-/

namespace SprigCompiler

/-- Whether some tokens leave a character over that has others in front of it and behind it: it lies
in none of their spans, and it is no space, no tab, no newline and no carriage return directly in
front of a newline. -/
structure LeftOver (tokens : List Token) (front : List Char) (character : Char)
    (behind : List Char) : Prop where
  outside : ∀ token ∈ tokens,
    ¬(token.location.start ≤ byteCount front ∧ byteCount front < token.location.stop)
  noBlank : character ≠ ' ' ∧ character ≠ '\t'
  noLineBreak : character ≠ '\n' ∧ ¬(character = '\r' ∧ behind.head? = some '\n')

def StrayBehind (found : List (PieceKind × List Char)) (front : List Char) (character : Char) :
    Prop :=
  ∃ earlier later, found = earlier ++ (.stray character, [character]) :: later ∧
    front = earlier.flatMap Prod.snd

variable {content : String} {kind : PieceKind} {found others : List (PieceKind × List Char)}
  {tokens : List Token} {token : Token} {character first : Char}
  {front text characters rest before after more : List Char}

namespace StrayBehind

private theorem here (character : Char) (others : List (PieceKind × List Char)) :
    StrayBehind ((.stray character, [character]) :: others) [] character :=
  ⟨[], others, rfl, rfl⟩

/-- Behind the characters of a piece stand those of the others. -/
theorem append_iff (nonempty : characters ≠ []) :
    StrayBehind ((kind, characters) :: others) (characters ++ before) character ↔
      StrayBehind others before character := by
  constructor
  · rintro ⟨earlier, later, split, isFront⟩
    cases earlier with
    | nil => exact absurd (List.append_eq_nil_iff.mp isFront).1 nonempty
    | cons piece earlier =>
        obtain ⟨rfl, isOthers⟩ := List.cons.inj split
        exact ⟨earlier, later, isOthers, List.append_cancel_left isFront⟩
  · rintro ⟨earlier, later, rfl, rfl⟩
    exact ⟨(kind, characters) :: earlier, later, rfl, rfl⟩

/-- A stray character that stands within the first piece is that piece. -/
theorem within (strays : StrayBehind ((kind, before ++ first :: more) :: others) before character) :
    kind = .stray character := by
  obtain ⟨earlier, later, split, isFront⟩ := strays
  cases earlier with
  | nil => exact congrArg Prod.fst (List.cons.inj split).1
  | cons piece earlier =>
      obtain ⟨rfl, _⟩ := List.cons.inj split
      have longer := congrArg List.length isFront
      simp only [List.flatMap_cons, List.length_append, List.length_cons] at longer
      omega

/-- Nothing that is stray stands in front of the first stray piece. -/
theorem length_le {earlier later : List (PieceKind × List Char)}
    (plain : ∀ piece ∈ earlier, piece.1.isStray = false)
    (strays : StrayBehind (earlier ++ later) before character) :
    (earlier.flatMap Prod.snd).length ≤ before.length := by
  obtain ⟨front, behind, split, rfl⟩ := strays
  rcases List.append_eq_append_iff.mp split with ⟨more, rfl, _⟩ | ⟨more, rfl, same⟩
  · rw [List.flatMap_append, List.length_append]
    exact Nat.le_add_right _ _
  · cases more with
    | nil => rw [List.append_nil]
    | cons piece more =>
        obtain ⟨rfl, _⟩ := List.cons.inj same
        have noStray := plain _ (List.mem_append_right _ List.mem_cons_self)
        cases noStray

end StrayBehind

private theorem location_eq_of_located {source : Source} {location : Location} {start stop : Nat}
    (located : source.location? start stop = some location) :
    location.start = start ∧ location.stop = stop := by
  obtain ⟨position, _, rfl⟩ := Option.map_eq_some_iff.mp located
  exact ⟨rfl, rfl⟩

/-- The first piece is a longest match or a stray character, and behind it stand the others. -/
theorem Munched.of_cons (munched : Munched text ((kind, characters) :: found)) :
    ∃ rest, text = characters ++ rest ∧ Munched rest found ∧
      (Longest kind characters rest ∨ ∃ first, kind = .stray first ∧ characters = [first] ∧
        ∀ (kind : PieceKind) (characters : List Char), Pattern kind characters →
          ¬characters <+: first :: rest) := by
  cases munched with
  | piece longest others => exact ⟨_, rfl, others, .inl longest⟩
  | stray noPattern others => exact ⟨_, rfl, others, .inr ⟨_, rfl, rfl, noPattern⟩⟩

theorem Munched.ne_nil (munched : Munched text ((kind, characters) :: found)) :
    characters ≠ [] := by
  obtain ⟨rest, _, _, longest | ⟨first, _, rfl, _⟩⟩ := munched.of_cons
  · exact longest.fits.ne_nil
  · exact List.cons_ne_nil _ _

private theorem Tokenized.start_lt_stop {source : Source}
    (tokenized : Tokenized source front found tokens)
    (munched : Munched text found) : ∀ token ∈ tokens,
      token.location.start < token.location.stop := by
  induction tokenized generalizing text with
  | nothing => exact List.forall_mem_nil _
  | skip _ _ inductionHypothesis =>
      obtain ⟨rest, _, others, _⟩ := munched.of_cons
      exact inductionHypothesis others
  | token _ located _ inductionHypothesis =>
      obtain ⟨rest, _, others, _⟩ := munched.of_cons
      refine List.forall_mem_cons.mpr ⟨?_, inductionHypothesis others⟩
      obtain ⟨starts, stops⟩ := location_eq_of_located located
      rw [starts, stops, byteCount_append]
      exact Nat.lt_add_of_pos_right (byteCount_pos munched.ne_nil)

/-- A token is written as the characters that it covers, unless it is a string. -/
theorem Token.Stands.exists_covers (stands : token.Stands content) :
    ∃ front inside behind, token.location.Covers content front inside behind ∧
      (token.kind ≠ .string → token.text.toList = inside) := by
  obtain ⟨front, inside, behind, covers, written⟩ := stands
  refine ⟨front, inside, behind, covers, fun noString => ?_⟩
  generalize isLexeme : token.lexeme = lexeme at written
  cases written with
  | openString => exact absurd (congrArg Lexeme.kind isLexeme) noString
  | closedString => exact absurd (congrArg Lexeme.kind isLexeme) noString
  | plain => exact congrArg (String.toList ∘ Lexeme.text) isLexeme

/-! ### Left over characters -/

private theorem within_or_behind (same : characters ++ rest = before ++ character :: after) :
    (∃ more, characters = before ++ character :: more ∧ after = more ++ rest) ∨
      ∃ further, before = characters ++ further ∧ rest = further ++ character :: after := by
  rcases List.append_eq_append_iff.mp same with ⟨further, isFront, isRest⟩ | ⟨more, inside, behind⟩
  · exact .inr ⟨further, isFront, isRest⟩
  · cases more with
    | nil => exact .inr ⟨[], by simpa using inside.symm, behind.symm⟩
    | cons next more =>
        obtain ⟨rfl, isAfter⟩ := List.cons.inj behind
        exact .inl ⟨more, inside, isAfter⟩

/-- Tokens that start later do not reach a character. -/
theorem not_mem_span (later : ∀ token ∈ tokens, byteCount front < token.location.start) :
    ∀ token ∈ tokens,
      ¬(token.location.start ≤ byteCount front ∧ byteCount front < token.location.stop) :=
  fun token isMember inside => absurd inside.1 (Nat.not_le_of_lt (later token isMember))

/-- A token that ends earlier makes no difference to a character. -/
theorem LeftOver.cons_iff (ends : token.location.stop ≤ byteCount front) :
    LeftOver (token :: tokens) front character after ↔
      LeftOver tokens front character after := by
  constructor
  · intro leftOver
    exact ⟨(List.forall_mem_cons.mp leftOver.outside).2, leftOver.noBlank, leftOver.noLineBreak⟩
  · intro leftOver
    refine ⟨List.forall_mem_cons.mpr ⟨fun inside => ?_, leftOver.outside⟩, leftOver.noBlank,
      leftOver.noLineBreak⟩
    exact absurd inside.2 (Nat.not_lt_of_le ends)

/-- What lies between the tokens is not left over if it fits a pattern. -/
theorem Pattern.not_leftOver (fits : Pattern kind (before ++ character :: more))
    (between : kind = .blank ∨ kind = .lineBreak) :
    ¬LeftOver tokens front character (more ++ rest) := by
  intro leftOver
  obtain ⟨noSpace, noTab⟩ := leftOver.noBlank
  obtain ⟨noNewline, noReturn⟩ := leftOver.noLineBreak
  generalize whole : before ++ character :: more = characters at fits
  cases fits with
  | blank _ empty =>
      rcases empty character (by rw [← whole]; simp) with isSpace | isTab
      · exact noSpace isSpace
      · exact noTab isTab
  | lineBreak isCarriage =>
      simp only [List.mem_cons, List.not_mem_nil, or_false] at isCarriage
      rcases isCarriage with rfl | rfl
      · cases before with
        | nil => exact noNewline (List.cons.inj whole).1
        | cons _ before => simp at whole
      · cases before with
        | nil =>
            obtain ⟨isReturn, rfl⟩ := List.cons.inj whole
            exact noReturn ⟨isReturn, rfl⟩
        | cons _ before =>
            cases before with
            | nil => exact noNewline (List.cons.inj (List.cons.inj whole).2).1
            | cons _ before => simp at whole
  | _ => rcases between with impossible | impossible <;> cases impossible

/-- A character that no pattern fits is left over by tokens that start later. -/
theorem leftOver_of_noPattern
    (noPattern : ∀ (kind : PieceKind) (characters : List Char), Pattern kind characters →
      ¬characters <+: character :: rest)
    (later : ∀ token ∈ tokens, byteCount front < token.location.start) :
    LeftOver tokens front character rest := by
  have blank (other : Char) (isBlank : other = ' ' ∨ other = '\t') : character ≠ other := by
    rintro rfl
    refine noPattern .blank [character] (.blank (List.cons_ne_nil _ _) ?_) (List.prefix_append _ _)
    exact List.forall_mem_singleton.mpr isBlank
  refine ⟨not_mem_span later, ⟨blank ' ' (.inl rfl), blank '\t' (.inr rfl)⟩, ?_, ?_⟩
  · rintro rfl
    exact noPattern .lineBreak ['\n'] (.lineBreak List.mem_cons_self) (List.prefix_append _ _)
  · rintro ⟨rfl, isNewline⟩
    obtain ⟨others, rfl⟩ := List.head?_eq_some_iff.mp isNewline
    exact noPattern .lineBreak ['\r', '\n'] (@Pattern.lineBreak ['\r'] (by decide))
      (List.prefix_append _ _)

/-- What tokens leave over behind some characters are the stray pieces. -/
theorem Tokenized.leftOver_iff (tokenized : Tokenized (.ofString content) front found tokens)
    (munched : Munched text found) (split : content.toList = front ++ text)
    (stands : text = before ++ character :: after) :
    LeftOver tokens (front ++ before) character after ↔ StrayBehind found before character := by
  -- The characters of the first piece are decided by its kind, and those behind it by the others.
  induction tokenized generalizing text before with
  | nothing =>
      cases munched
      exact absurd stands (by simp)
  | @skip front characters kind pieces tokens noToken tokenized inductionHypothesis =>
      obtain ⟨rest, rfl, others, isFirst⟩ := munched.of_cons
      have splitRest : content.toList = front ++ characters ++ rest := by
        rw [split, List.append_assoc]
      rcases within_or_behind stands with ⟨more, rfl, rfl⟩ | ⟨further, rfl, isRest⟩
      · rcases isFirst with longest | ⟨first, rfl, single, noPattern⟩
        · have noStray := longest.fits.noStray
          have between : kind = .blank ∨ kind = .lineBreak := by
            rcases noToken with isBlank | isBreak | isStray
            · exact .inl isBlank
            · exact .inr isBreak
            · rw [noStray] at isStray
              cases isStray
          refine iff_of_false (longest.fits.not_leftOver between) fun strays => ?_
          rw [strays.within] at noStray
          cases noStray
        · obtain ⟨rfl, rfl, rfl⟩ : before = [] ∧ character = first ∧ more = [] := by
            cases before with
            | nil => exact ⟨rfl, List.cons.inj single⟩
            | cons _ before => simp at single
          have later := (tokenized.spread others splitRest).2
          refine iff_of_true ?_ (.here character pieces)
          refine leftOver_of_noPattern noPattern fun token isMember => ?_
          refine Nat.lt_of_lt_of_le ?_ (later token isMember)
          rw [List.append_nil, List.nil_append, byteCount_append]
          exact Nat.lt_add_of_pos_right (byteCount_pos (List.cons_ne_nil _ _))
      · rw [StrayBehind.append_iff munched.ne_nil, ← List.append_assoc]
        exact inductionHypothesis others splitRest isRest
  | @token front characters kind pieces token tokens means located tokenized inductionHypothesis =>
      obtain ⟨rest, rfl, others, _⟩ := munched.of_cons
      have splitRest : content.toList = front ++ characters ++ rest := by
        rw [split, List.append_assoc]
      obtain ⟨starts, stops⟩ := location_eq_of_located located
      rcases within_or_behind stands with ⟨more, rfl, rfl⟩ | ⟨further, rfl, isRest⟩
      · refine iff_of_false (fun leftOver => ?_) fun strays => ?_
        · refine leftOver.outside token List.mem_cons_self ⟨?_, ?_⟩
          · rw [starts, byteCount_append]
            exact Nat.le_add_right _ _
          · rw [stops, ← List.append_assoc, byteCount_append _ (character :: more)]
            exact Nat.lt_add_of_pos_right (byteCount_pos (List.cons_ne_nil _ _))
        · rw [strays.within] at means
          cases means
      · rw [StrayBehind.append_iff munched.ne_nil, ← List.append_assoc, LeftOver.cons_iff]
        · exact inductionHypothesis others splitRest isRest
        · rw [stops, byteCount_append _ further]
          exact Nat.le_add_right _ _

/-! ### Strict and lenient reading -/

structure FirstLeftOver (content : String) (tokens : List Token) (front : List Char)
    (character : Char) (behind : List Char) : Prop where
  stands : content.toList = front ++ character :: behind
  leftOver : LeftOver tokens front character behind
  first : ∀ earlier other later, content.toList = earlier ++ other :: later →
    earlier.length < front.length → ¬LeftOver tokens earlier other later

private theorem Tokenized.leftOver_iff_of_pieces
    (tokenized : Tokenized (.ofString content) [] (pieces content.toList) tokens)
    (stands : content.toList = front ++ character :: after) :
    LeftOver tokens front character after ↔ StrayBehind (pieces content.toList) front character :=
  tokenized.leftOver_iff (munched_pieces _) rfl stands

/-- Without stray pieces nothing is left over. -/
theorem Tokenized.not_leftOver
    (tokenized : Tokenized (.ofString content) [] (pieces content.toList) tokens)
    (plain : ∀ piece ∈ pieces content.toList, piece.1.isStray = false)
    (stands : content.toList = front ++ character :: after) :
    ¬LeftOver tokens front character after := by
  intro leftOver
  obtain ⟨earlier, later, split, _⟩ := (tokenized.leftOver_iff_of_pieces stands).mp leftOver
  have noStray := plain (.stray character, [character]) (by rw [split]; simp)
  cases noStray

/-- The first stray piece is the first character that is left over. -/
theorem Tokenized.firstLeftOver {earlier later : List (PieceKind × List Char)}
    (tokenized : Tokenized (.ofString content) [] (pieces content.toList) tokens)
    (split : pieces content.toList = earlier ++ (.stray character, [character]) :: later)
    (plain : ∀ piece ∈ earlier, piece.1.isStray = false) :
    FirstLeftOver content tokens (earlier.flatMap Prod.snd) character
      (later.flatMap Prod.snd) := by
  have whole : content.toList =
      earlier.flatMap Prod.snd ++ character :: later.flatMap Prod.snd := by
    rw [← flatMap_pieces content.toList, split, List.flatMap_append]
    rfl
  refine ⟨whole, (tokenized.leftOver_iff_of_pieces whole).mpr ⟨earlier, later, split, rfl⟩, ?_⟩
  intro front other behind stands shorter leftOver
  have strays := (tokenized.leftOver_iff_of_pieces stands).mp leftOver
  rw [split] at strays
  exact absurd shorter (Nat.not_lt_of_le (strays.length_le plain))

/-- Read leniently, every text has tokens.  They cover characters of the text, at least one each,
and stand one behind the other, and all but strings have the text that they cover.  Read strictly,
the text has the same tokens if they leave no character over.  If they do, the first such character
is the error, with the position of its offset. -/
theorem Token.ofText?_strict_lenient (content : String) :
    ∃ tokens, Token.ofText? false content = .ok tokens ∧
      (∀ token ∈ tokens, token.location.start < token.location.stop ∧
        ∃ front inside behind, token.location.Covers content front inside behind ∧
          (token.kind ≠ .string → token.text.toList = inside)) ∧
      (tokens.Pairwise fun first second => first.location.stop ≤ second.location.start) ∧
      match Token.ofText? true content with
      | .ok found => found = tokens ∧ ∀ front character behind,
          content.toList = front ++ character :: behind → ¬LeftOver tokens front character behind
      | .error error => ∃ front behind,
          FirstLeftOver content tokens front error.character behind ∧
            (Source.ofString content).position? (byteCount front) = some error.position := by
  have tokenized := tokenized_ofPieces content
  have spread := (tokenized.spread (munched_pieces _) rfl).1
  refine ⟨_, rfl, fun token isMember => ?_, spread.increasing, ?_⟩
  · exact ⟨tokenized.start_lt_stop (munched_pieces _) token isMember,
      (spread.stands token isMember).exists_covers⟩
  · rw [ofText?_eq]
    cases isFirst : Token.firstStray? (Piece.cut .origin content.toList) with
    | none =>
        have kept := (firstStray?_eq_none_iff _).mp isFirst
        refine ⟨by rw [List.filter_eq_self.mpr kept], fun front character behind stands => ?_⟩
        refine tokenized.not_leftOver (fun piece isMember => ?_) stands
        obtain ⟨found, isFound, rfl⟩ := List.mem_map.mp isMember
        have plain := kept found isFound
        rw [isNone_stray?, Bool.not_eq_true'] at plain
        exact plain
    | some error =>
        obtain ⟨earlier, later, split, plain, position⟩ := @firstStray?_cut [] _ _ isFirst
        have first := tokenized.firstLeftOver split plain
        refine ⟨_, _, first, ?_⟩
        rw [Source.position?_byteCount first.stands, position]
        rfl

end SprigCompiler
