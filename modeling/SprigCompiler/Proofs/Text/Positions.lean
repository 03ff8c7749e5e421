import SprigCompiler.Proofs.Token.Lines

/-!
Positions found through the index of lines.

Walking over a text from its start counts newlines, and characters behind the last of them.  The
index of lines finds the same position by halving.
-/

namespace SprigCompiler

def byteCount : List Char → Nat
  | [] => 0
  | character :: rest => character.utf8Size + byteCount rest

variable {front behind inside : List Char}

@[simp]
theorem byteCount_cons (character : Char) (rest : List Char) :
    byteCount (character :: rest) = character.utf8Size + byteCount rest := rfl

@[simp]
theorem byteCount_append (front behind : List Char) :
    byteCount (front ++ behind) = byteCount front + byteCount behind := by
  induction front with
  | nil => exact (Nat.zero_add _).symm
  | cons first rest inductionHypothesis =>
      rw [List.cons_append, byteCount_cons, byteCount_cons, inductionHypothesis, Nat.add_assoc]

theorem byteCount_reverse (characters : List Char) :
    byteCount characters.reverse = byteCount characters := by
  induction characters with
  | nil => rfl
  | cons first rest inductionHypothesis =>
      rw [List.reverse_cons, byteCount_append, inductionHypothesis, byteCount_cons, Nat.add_comm]
      rfl

theorem byteCount_pos (nonempty : inside ≠ []) : 0 < byteCount inside := by
  obtain ⟨first, rest, rfl⟩ := List.exists_cons_of_ne_nil nonempty
  rw [byteCount_cons]
  exact Nat.add_pos_left first.utf8Size_pos _

theorem byteCount_toList (text : String) : byteCount text.toList = text.utf8ByteSize := by
  rw [← String.ofList_toList (s := text)]
  induction text.toList with
  | nil => rfl
  | cons first rest inductionHypothesis =>
      rw [String.toList_ofList] at inductionHypothesis ⊢
      rw [byteCount_cons, inductionHypothesis, String.ofList_cons, String.utf8ByteSize_append,
        String.utf8ByteSize_singleton]

theorem Place.offset_afterAll_eq (place : Place) (characters : List Char) :
    (place.afterAll characters).offset = place.offset + byteCount characters := by
  rw [Place.offset_afterAll, ← byteCount_toList, String.toList_ofList]

private theorem Line.columnAt?_append (inside behind : List Char) (column : Nat) :
    Line.columnAt? (byteCount inside) column (inside ++ behind) =
      some (column + inside.length) := by
  induction inside generalizing column with
  | nil => cases behind <;> rfl
  | cons first rest inductionHypothesis =>
      have notHere : byteCount (first :: rest) ≠ 0 :=
        (byteCount_pos (List.cons_ne_nil first rest)).ne'
      have further : first.utf8Size ≤ byteCount (first :: rest) := by
        rw [byteCount_cons]
        exact Nat.le_add_right _ _
      rw [List.cons_append, Line.columnAt?, if_neg notHere, if_pos further, byteCount_cons,
        Nat.add_sub_cancel_left, inductionHypothesis, List.length_cons, Nat.add_assoc,
        Nat.add_comm 1]

/-- The line that is being cut goes on up to the next newline, and all further lines start behind
it. -/
theorem Line.cut_eq_cons (start offset : Nat) (current behind : List Char) :
    ∃ others, Line.cut start offset current behind =
        ⟨start, current.reverse ++ behind.takeWhile (· ≠ '\n')⟩ :: others ∧
      ∀ line ∈ others, offset < line.start := by
  induction behind generalizing start offset current with
  | nil => exact ⟨[], by simp [Line.cut], nofun⟩
  | cons first rest inductionHypothesis =>
      by_cases isNewline : first = '\n'
      · obtain ⟨others, cut, later⟩ := inductionHypothesis (offset + 1) (offset + 1) []
        refine ⟨Line.cut (offset + 1) (offset + 1) [] rest, by simp [Line.cut, isNewline], ?_⟩
        intro line isMember
        rw [cut] at isMember
        rcases List.mem_cons.mp isMember with rfl | isOther
        · exact Nat.lt_succ_self offset
        · exact Nat.lt_of_succ_lt (later line isOther)
      · obtain ⟨others, cut, later⟩ :=
          inductionHypothesis start (offset + first.utf8Size) (first :: current)
        refine ⟨others, by simp [Line.cut, isNewline, cut], ?_⟩
        intro line isMember
        exact Nat.lt_of_le_of_lt (Nat.le_add_right _ _) (later line isMember)

/-- Cutting lines keeps track of the position: the finished lines count the newlines, and the
characters of the current line are its columns. -/
theorem Line.cut_append (front behind : List Char) {start offset : Nat} {current : List Char}
    (stands : start + byteCount current = offset) :
    ∃ done found inside, Line.cut start offset current (front ++ behind) =
        done ++ Line.cut found (offset + byteCount front) inside behind ∧
      (∀ line ∈ done, line.start ≤ found) ∧ start ≤ found ∧
      found + byteCount inside = offset + byteCount front ∧
      ∀ line, (⟨line, current.length⟩ : Position).afterAll front =
        ⟨line + done.length, inside.length⟩ := by
  induction front generalizing start offset current with
  | nil => exact ⟨[], start, current, rfl, nofun, Nat.le_refl _, stands, fun _ => rfl⟩
  | cons first rest inductionHypothesis =>
      rw [List.cons_append, Line.cut]
      by_cases isNewline : first = '\n'
      · -- The current line is done, and the next one starts empty behind the newline.
        obtain ⟨done, found, inside, cut, earlier, further, stands', counted⟩ :=
          @inductionHypothesis (offset + 1) (offset + 1) [] rfl
        have oneByte : first.utf8Size = 1 := by rw [isNewline]; rfl
        have whole : offset + 1 + byteCount rest = offset + byteCount (first :: rest) := by
          rw [byteCount_cons, oneByte, Nat.add_assoc]
        rw [whole] at cut stands'
        refine ⟨⟨start, current.reverse⟩ :: done, found, inside, ?_, ?_, by omega, stands', ?_⟩
        · rw [if_pos isNewline, cut, List.cons_append]
        · intro line isMember
          rcases List.mem_cons.mp isMember with rfl | isDone
          · change start ≤ found
            omega
          · exact earlier line isDone
        · intro line
          have opened : (⟨line, current.length⟩ : Position).after first =
              ⟨line + 1, ([] : List Char).length⟩ := by
            rw [Position.after, if_pos isNewline]
            rfl
          rw [Position.afterAll, List.foldl_cons, opened]
          refine (counted (line + 1)).trans ?_
          rw [List.length_cons, Nat.add_assoc, Nat.add_comm 1]
      · have stands' : start + byteCount (first :: current) = offset + first.utf8Size := by
          rw [byteCount_cons]
          omega
        obtain ⟨done, found, inside, cut, earlier, further, stands', counted⟩ :=
          inductionHypothesis stands'
        rw [Nat.add_assoc, ← byteCount_cons] at cut stands'
        refine ⟨done, found, inside, ?_, earlier, further, stands', ?_⟩
        · rw [if_neg isNewline, cut]
        · intro line
          have wider : (⟨line, current.length⟩ : Position).after first =
              ⟨line, (first :: current).length⟩ := by
            rw [Position.after, if_neg isNewline]
            rfl
          rw [Position.afterAll, List.foldl_cons, wider]
          exact counted line

/-! ### Halving -/

namespace Source

/-- Halving finds the last line that starts at or before an offset, if these are all lines up to
some index. -/
theorem lastLineFrom_eq {source : Source} {offset index low high : Nat}
    (starts : ∀ other, source.startsBy offset other = true ↔ other ≤ index)
    (atLeast : low ≤ index) (below : index < high) :
    source.lastLineFrom offset low high = index := by
  induction length : high - low using Nat.strong_induction_on generalizing low high with
  | _ bound inductionHypothesis =>
      rw [lastLineFrom]
      by_cases several : low + 1 < high
      · simp only [if_pos several]
        by_cases reached : (low + high) / 2 ≤ index
        · rw [if_pos ((starts _).mpr reached)]
          exact inductionHypothesis _ (by omega) reached below rfl
        · rw [if_neg (reached ∘ (starts _).mp)]
          exact inductionHypothesis _ (by omega) atLeast (by omega) rfl
      · rw [if_neg several]
        omega

/-- The lines up to the one of an offset start at or before it, and the lines behind do not. -/
theorem startsBy_iff {source : Source} {offset : Nat} {done others : List Line} {current : Line}
    (lines : source.lines = (done ++ current :: others).toArray)
    (earlier : ∀ line ∈ done, line.start ≤ offset) (begins : current.start ≤ offset)
    (later : ∀ line ∈ others, offset < line.start) (other : Nat) :
    source.startsBy offset other = true ↔ other ≤ done.length := by
  unfold startsBy
  rw [lines, List.getElem?_toArray]
  rcases Nat.lt_trichotomy other done.length with isEarlier | rfl | isLater
  · have reached := earlier _ (List.getElem_mem isEarlier)
    rw [List.getElem?_append_left isEarlier, List.getElem?_eq_getElem isEarlier]
    simp only [reached, decide_true, Nat.le_of_lt isEarlier]
  · rw [List.getElem?_append_right (Nat.le_refl _), Nat.sub_self, List.getElem?_cons_zero]
    simp only [begins, decide_true, Nat.le_refl]
  · rw [List.getElem?_append_right (Nat.le_of_lt isLater)]
    obtain ⟨distance, isDistance⟩ : ∃ distance, other - done.length = distance + 1 :=
      ⟨other - done.length - 1, by omega⟩
    rw [isDistance, List.getElem?_cons_succ]
    have notYet := Nat.not_le_of_lt isLater
    cases isLine : others[distance]? with
    | none => simp only [notYet, Bool.false_eq_true]
    | some line =>
        have notReached := Nat.not_le_of_lt (later line (List.mem_of_getElem? isLine))
        simp only [notReached, decide_false, notYet, Bool.false_eq_true]

/-- The position of an offset is where a walk over the characters before it arrives. -/
theorem position?_byteCount {content : String} (split : content.toList = front ++ behind) :
    (ofString content).position? (byteCount front) = some (Position.origin.afterAll front) := by
  obtain ⟨done, found, inside, cut, earlier, -, stands, counted⟩ :=
    @Line.cut_append front behind 0 0 [] rfl
  obtain ⟨others, last, later⟩ := Line.cut_eq_cons found (0 + byteCount front) inside behind
  rw [← split, last] at cut
  rw [Nat.zero_add] at stands later
  let current : Line := ⟨found, inside.reverse ++ behind.takeWhile (· ≠ '\n')⟩
  have lines : (ofString content).lines = (done ++ current :: others).toArray := by
    rw [ofString, cut]
  have within : min (byteCount front) (ofString content).size = byteCount front := by
    have whole : (ofString content).size = byteCount front + byteCount behind := by
      rw [← byteCount_append, ← split, byteCount_toList]
      rfl
    omega
  have begins : found ≤ byteCount front := by omega
  have starts := startsBy_iff lines
    (fun line isDone => Nat.le_trans (earlier line isDone) begins) begins later
  have index : (ofString content).lastLineFrom (byteCount front) 0 (ofString content).lines.size =
      done.length := by
    refine lastLineFrom_eq starts (Nat.zero_le _) ?_
    rw [lines]
    simp
  have isCurrent : (ofString content).lines[done.length]? = some current := by
    rw [lines]
    simp
  have distance : byteCount front - found = byteCount inside.reverse := by
    have same := byteCount_reverse inside
    omega
  have column : Line.columnAt? (byteCount front - current.start) 0 current.characters =
      some (0 + inside.reverse.length) := by
    rw [show byteCount front - current.start = _ from distance]
    exact Line.columnAt?_append inside.reverse _ 0
  have arrived : Position.origin.afterAll front = ⟨1 + done.length, inside.length⟩ := counted 1
  unfold position?
  simp only [within, index, isCurrent]
  rw [column, Option.map_some, arrived, List.length_reverse, Nat.zero_add, Nat.add_comm 1]

theorem location?_byteCount {content : String} (split : content.toList = front ++ behind)
    (stop : Nat) :
    (ofString content).location? (byteCount front) stop =
      some ⟨(Position.origin.afterAll front).line, (Position.origin.afterAll front).column,
        byteCount front, stop⟩ := by
  rw [location?, position?_byteCount split, Option.map_some]

end Source

end SprigCompiler
