import SprigCompiler.Proofs.Token.Scanning

/-!
Tokens as spans of a text.

The tokens of a text cover characters of it that stand one behind the other.  A token's text is what
it covers, but for the quotes of a string.
-/

namespace SprigCompiler

/-- Whether a location is that of the characters `inside` of a text, between those in front of them
and those behind them. -/
structure Location.Covers (location : Location) (content : String)
    (front inside behind : List Char) : Prop where
  whole : content.toList = front ++ (inside ++ behind)
  start : location.start = byteCount front
  stop : location.stop = byteCount (front ++ inside)
  position : (Source.ofString content).position? location.start = some location.position

/-- Whether a token with some kind and text can cover characters with others behind them.  The
closing quote of a string can be missing at the end of the text only. -/
inductive Lexeme.WrittenAs : Lexeme → List Char → List Char → Prop where
  | openString (value : String) : WrittenAs ⟨.string, value⟩ ('"' :: value.toList) []
  | closedString (value : String) (behind : List Char) :
      WrittenAs ⟨.string, value⟩ ('"' :: (value.toList ++ ['"'])) behind
  | plain {kind : TokenKind} (noString : kind ≠ .string) (text : String) (behind : List Char) :
      WrittenAs ⟨kind, text⟩ text.toList behind

def Token.Stands (token : Token) (content : String) : Prop :=
  ∃ front inside behind, token.location.Covers content front inside behind ∧
    token.lexeme.WrittenAs inside behind

/-- Whether tokens cover characters of a text that stand one behind the other. -/
structure Spread (content : String) (tokens : List Token) : Prop where
  stands : ∀ token ∈ tokens, token.Stands content
  increasing : tokens.Pairwise fun first second => first.location.stop ≤ second.location.start

namespace Location.Covers

variable {location other : Location} {content : String} {front inside behind : List Char}

theorem start_le_stop (covers : location.Covers content front inside behind) :
    location.start ≤ location.stop := by
  rw [covers.start, covers.stop, byteCount_append]
  exact Nat.le_add_right _ _

theorem stop_le (covers : location.Covers content front inside behind) :
    location.stop ≤ content.utf8ByteSize := by
  rw [covers.stop, ← byteCount_toList, covers.whole, ← List.append_assoc, byteCount_append _ behind]
  exact Nat.le_add_right _ _

private theorem starts (covers : location.Covers content front inside behind) :
    front ++ inside <+: content.toList := by
  rw [covers.whole, ← List.append_assoc]
  exact List.prefix_append _ _

theorem through {otherFront otherInside otherBehind : List Char}
    (first : location.Covers content front inside behind)
    (second : other.Covers content otherFront otherInside otherBehind) :
    ∃ more rest, (location.through other).Covers content front more rest := by
  have stops : (location.through other).stop =
      max (byteCount (otherFront ++ otherInside)) (byteCount (front ++ inside)) := by
    rw [← first.stop, ← second.stop]
    rfl
  rcases List.prefix_or_prefix_of_prefix first.starts second.starts with
    ⟨more, longer⟩ | ⟨more, shorter⟩
  · refine ⟨inside ++ more, otherBehind, ?_, first.start, ?_, first.position⟩
    · rw [second.whole, ← List.append_assoc, ← longer]
      simp only [List.append_assoc]
    · rw [stops, ← longer, byteCount_append _ more, ← List.append_assoc, byteCount_append _ more]
      omega
  · refine ⟨inside, behind, first.whole, first.start, ?_, first.position⟩
    rw [stops, ← shorter, byteCount_append _ more]
    omega

end Location.Covers

section Order

variable {content : String} {tokens others : List Token} {token : Token}

theorem Spread.sublist (spread : Spread content others) (sublist : tokens.Sublist others) :
    Spread content tokens where
  stands := fun token isMember => spread.stands token (sublist.subset isMember)
  increasing := spread.increasing.sublist sublist

theorem Token.Stands.start_le_stop (stands : token.Stands content) :
    token.location.start ≤ token.location.stop := by
  obtain ⟨_, _, _, covers, _⟩ := stands
  exact covers.start_le_stop

theorem Spread.first_le (spread : Spread content tokens) (isFirst : tokens.head? = some token) :
    ∀ other ∈ tokens, token.location.start ≤ other.location.start := by
  obtain ⟨rest, rfl⟩ := List.head?_eq_some_iff.mp isFirst
  refine List.forall_mem_cons.mpr ⟨Nat.le_refl _, fun other isLater => ?_⟩
  have apart := (List.pairwise_cons.mp spread.increasing).1 other isLater
  exact Nat.le_trans (spread.stands token List.mem_cons_self).start_le_stop apart

/-- Where things stand one behind the other, none ends later than the last. -/
theorem stop_le_of_getLast? {Item : Type} {place : Item → Location} {items : List Item}
    {last : Item} (forward : ∀ item ∈ items, (place item).start ≤ (place item).stop)
    (increasing : items.Pairwise fun first second => (place first).stop ≤ (place second).start)
    (isLast : items.getLast? = some last) :
    ∀ item ∈ items, (place item).stop ≤ (place last).stop := by
  obtain ⟨rest, rfl⟩ := List.getLast?_eq_some_iff.mp isLast
  have isMember : last ∈ rest ++ [last] := List.mem_append_right _ List.mem_cons_self
  refine List.forall_mem_append.mpr ⟨fun item isEarlier => ?_, ?_⟩
  · have apart := (List.pairwise_append.mp increasing).2.2 item isEarlier last List.mem_cons_self
    exact Nat.le_trans apart (forward last isMember)
  · exact List.forall_mem_singleton.mpr (Nat.le_refl _)

end Order

variable {kind : PieceKind} {characters rest front text : List Char} {lexeme : Lexeme}

private theorem Longest.eq_nil_of_openString {inside : List Char} (noQuote : '"' ∉ inside)
    (longest : Longest kind ('"' :: inside) rest) : rest = [] := by
  cases rest with
  | nil => rfl
  | cons next rest =>
      have starts : '"' :: (inside ++ [next]) <+: '"' :: inside ++ next :: rest :=
        ⟨rest, by simp⟩
      have fits : Pattern .string ('"' :: (inside ++ [next])) := by
        by_cases isQuote : next = '"'
        · rw [isQuote]
          exact .closedString noQuote
        · refine .openString fun isMember => ?_
          rcases List.mem_append.mp isMember with isInside | isLast
          · exact noQuote isInside
          · exact isQuote (List.mem_singleton.mp isLast).symm
      have shorter := longest.longest _ _ fits starts
      simp only [List.length_cons, List.length_append, List.length_nil] at shorter
      omega

private theorem Means.writtenAs {finished : Prop} (means : Means finished kind characters lexeme)
    (longest : Longest kind characters rest) : lexeme.WrittenAs characters rest := by
  have plain : ∀ {kind : TokenKind} (characters : List Char), kind ≠ .string →
      Lexeme.WrittenAs ⟨kind, String.ofList characters⟩ characters rest := by
    intro kind characters noString
    have written := Lexeme.WrittenAs.plain noString (String.ofList characters) rest
    rw [String.toList_ofList] at written
    exact written
  cases means with
  | @openString inside noQuote =>
      have written := Lexeme.WrittenAs.openString (String.ofList inside)
      rw [String.toList_ofList] at written
      rw [longest.eq_nil_of_openString noQuote]
      exact written
  | @closedString inside noQuote =>
      have written := Lexeme.WrittenAs.closedString (String.ofList inside) rest
      rw [String.toList_ofList] at written
      exact written
  | number => exact plain characters nofun
  | sign kind =>
      cases longest.fits with
      | sign isSign => exact plain _ (plain_of_mem_signs isSign).1
  | reserved isFinished isReserved =>
      exact plain characters (plain_of_mem_reservedKinds isReserved).1
  | identifier isFree => exact plain characters nofun

theorem covers_of_located {location : Location} {content : String}
    (split : content.toList = front ++ (characters ++ rest))
    (located : (Source.ofString content).location? (byteCount front)
      (byteCount (front ++ characters)) = some location) :
    location.Covers content front characters rest := by
  unfold Source.location? at located
  obtain ⟨position, isPosition, rfl⟩ := Option.map_eq_some_iff.mp located
  exact ⟨split, rfl, rfl, isPosition⟩

theorem Tokenized.spread {content : String} {found : List (PieceKind × List Char)}
    {tokens : List Token} (tokenized : Tokenized (.ofString content) front found tokens)
    (munched : Munched text found) (split : content.toList = front ++ text) :
    Spread content tokens ∧ ∀ token ∈ tokens, byteCount front ≤ token.location.start := by
  -- The bound on where later tokens start is what keeps them apart from the next one in front.
  induction tokenized generalizing text with
  | nothing => exact ⟨⟨nofun, .nil⟩, nofun⟩
  | @skip front characters kind pieces tokens noToken _ inductionHypothesis =>
      obtain ⟨rest, others, rfl⟩ : ∃ rest, Munched rest pieces ∧ text = characters ++ rest := by
        cases munched with
        | piece _ others => exact ⟨_, others, rfl⟩
        | stray _ others => exact ⟨_, others, rfl⟩
      obtain ⟨spread, later⟩ := inductionHypothesis others (by rw [split, List.append_assoc])
      refine ⟨spread, fun token isMember => Nat.le_trans ?_ (later token isMember)⟩
      rw [byteCount_append]
      exact Nat.le_add_right _ _
  | @token front characters kind pieces token tokens means located _ inductionHypothesis =>
      cases munched with
      | stray => cases means
      | @piece _ _ rest _ longest others =>
          have covers := covers_of_located split located
          obtain ⟨spread, later⟩ := inductionHypothesis others (by rw [split, List.append_assoc])
          have stands : token.Stands content :=
            ⟨front, characters, rest, covers, means.writtenAs longest⟩
          constructor
          · constructor
            · exact List.forall_mem_cons.mpr ⟨stands, spread.stands⟩
            · refine List.pairwise_cons.mpr ⟨fun other isLater => ?_, spread.increasing⟩
              rw [covers.stop]
              exact later other isLater
          · refine List.forall_mem_cons.mpr ⟨Nat.le_of_eq covers.start.symm, ?_⟩
            intro other isLater
            refine Nat.le_trans ?_ (later other isLater)
            rw [byteCount_append]
            exact Nat.le_add_right _ _

theorem spread_of_ofText? {strict : Bool} {content : String} {tokens : List Token}
    (read : Token.ofText? strict content = .ok tokens) : Spread content tokens :=
  ((tokenized_of_ofText? read).spread (munched_pieces _) rfl).1

end SprigCompiler
