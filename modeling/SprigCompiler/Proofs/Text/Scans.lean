import Mathlib.Data.List.DropRight
import SprigCompiler.Proofs.Guarded.Text

/-!
The index of lines against a plain scan.

A scan of the characters before an offset counts their newlines, and the characters behind the last
newline.  Cutting the whole text at its newlines gives the lines.  The index of lines agrees with
both, and a position leads back to its offset: the start of the line, and the bytes of as many of
its characters as there are columns.
-/

namespace SprigCompiler

variable {front behind inside : List Char} {first : Char}

namespace Position

variable {first second third : Position}

def Before (first second : Position) : Prop :=
  first.line < second.line ∨ first.line = second.line ∧ first.column < second.column

private theorem Before.trans (before : first.Before second) (further : second.Before third) :
    first.Before third := by
  unfold Before at *
  omega

private theorem Before.ne (before : first.Before second) : first ≠ second := by
  rintro rfl
  unfold Before at before
  omega

private theorem before_after (position : Position) (character : Char) :
    position.Before (position.after character) := by
  unfold after
  split
  · exact .inl (Nat.lt_succ_self _)
  · exact .inr ⟨rfl, Nat.lt_succ_self _⟩

/-- Reading on moves a position forward. -/
theorem before_afterAll (position : Position) (first : Char) (rest : List Char) :
    position.Before (position.afterAll (first :: rest)) := by
  induction rest generalizing position first with
  | nil => exact position.before_after first
  | cons second rest inductionHypothesis =>
      exact (position.before_after first).trans (inductionHypothesis (position.after first) second)

theorem afterAll_append (position : Position) (front behind : List Char) :
    position.afterAll (front ++ behind) = (position.afterAll front).afterAll behind :=
  List.foldl_append

/-- A walk from the start counts newlines, and the characters behind the last of them. -/
theorem afterAll_origin (front : List Char) :
    origin.afterAll front =
      ⟨1 + front.count '\n', (front.reverse.takeWhile (· ≠ '\n')).length⟩ := by
  induction front using List.reverseRecOn with
  | nil => rfl
  | append_singleton front last inductionHypothesis =>
      have walked : origin.afterAll (front ++ [last]) = (origin.afterAll front).after last :=
        origin.afterAll_append front [last]
      rw [walked, inductionHypothesis, after, List.reverse_concat, List.count_append]
      by_cases isNewline : last = '\n'
      · subst isNewline
        rfl
      · rw [if_neg isNewline,
          List.takeWhile_cons_of_pos (by rw [decide_eq_true_eq]; exact isNewline),
          List.count_singleton, if_neg (by rwa [beq_iff_eq]), List.length_cons]
        rfl

end Position

/-- Where a line starts among the lines of a text: behind those before it and their newlines. -/
def startOfLine (lines : List (List Char)) (index : Nat) : Nat :=
  byteCount ((lines.take index).flatMap (· ++ ['\n']))

private theorem splitOn_newline_cons (noNewline : first ≠ '\n') (rest : List Char) :
    (first :: rest).splitOn '\n' = (rest.splitOn '\n').modifyHead (first :: ·) := by
  rw [List.splitOn_cons_eq_if_modifyHead, if_neg (by rwa [beq_iff_eq])]

theorem splitOn_newline (rest : List Char) :
    ('\n' :: rest).splitOn '\n' = [] :: rest.splitOn '\n' := by
  rw [List.splitOn_cons_eq_if_modifyHead, if_pos (beq_self_eq_true _)]

/-- The first line goes up to the first newline. -/
theorem exists_splitOn_newline (text : List Char) :
    ∃ others, text.splitOn '\n' = text.takeWhile (· ≠ '\n') :: others := by
  induction text with
  | nil => exact ⟨[], List.splitOn_nil _⟩
  | cons first rest inductionHypothesis =>
      obtain ⟨others, isRest⟩ := inductionHypothesis
      by_cases isNewline : first = '\n'
      · rw [isNewline]
        exact ⟨rest.splitOn '\n', splitOn_newline rest⟩
      · rw [splitOn_newline_cons isNewline, isRest,
          List.takeWhile_cons_of_pos (by rw [decide_eq_true_eq]; exact isNewline)]
        exact ⟨others, rfl⟩

private theorem length_splitOn_newline (text : List Char) :
    (text.splitOn '\n').length = text.count '\n' + 1 := by
  induction text with
  | nil => rfl
  | cons first rest inductionHypothesis =>
      by_cases isNewline : first = '\n'
      · rw [isNewline, splitOn_newline, List.length_cons, inductionHypothesis,
          List.count_cons_self]
      · rw [splitOn_newline_cons isNewline, List.length_modifyHead, inductionHypothesis,
          List.count_cons_of_ne isNewline]

/-- The lines with their newlines are the text with a newline at its end. -/
theorem flatMap_splitOn_newline (text : List Char) :
    (text.splitOn '\n').flatMap (· ++ ['\n']) = text ++ ['\n'] := by
  induction text with
  | nil => rfl
  | cons first rest inductionHypothesis =>
      by_cases isNewline : first = '\n'
      · rw [isNewline, splitOn_newline, List.flatMap_cons, inductionHypothesis]
        rfl
      · obtain ⟨others, isRest⟩ := exists_splitOn_newline rest
        rw [isRest, List.flatMap_cons] at inductionHypothesis
        rw [splitOn_newline_cons isNewline, isRest, List.modifyHead_cons, List.flatMap_cons,
          List.cons_append, List.cons_append, inductionHypothesis, List.cons_append]

private theorem ne_newline_of_mem (single : '\n' ∉ inside) :
    ∀ character ∈ inside, decide (character ≠ '\n') = true := by
  intro character isInside
  rw [decide_eq_true_eq]
  rintro rfl
  exact single isInside

private theorem splitOn_newline_append (single : '\n' ∉ inside) (behind : List Char) :
    ∃ others, (inside ++ behind).splitOn '\n' =
      (inside ++ behind.takeWhile (· ≠ '\n')) :: others := by
  obtain ⟨others, isWhole⟩ := exists_splitOn_newline (inside ++ behind)
  rw [List.takeWhile_append_of_pos (ne_newline_of_mem single)] at isWhole
  exact ⟨others, isWhole⟩

/-- The characters behind the last newline are the start of the line that was reached, and the lines
before it take the bytes in front of them. -/
theorem exists_line_reached (front behind : List Char) :
    ∃ inside more, inside.length = (front.reverse.takeWhile (· ≠ '\n')).length ∧
      ((front ++ behind).splitOn '\n')[front.count '\n']? = some (inside ++ more) ∧
      byteCount front =
        startOfLine ((front ++ behind).splitOn '\n') (front.count '\n') + byteCount inside := by
  by_cases several : '\n' ∈ front
  · obtain ⟨last, before, reversed, noNewline⟩ :=
      List.eq_append_cons_of_mem (List.mem_reverse.mpr several)
    -- Read backwards, the first newline is the last one of the front.
    have split : front = before.reverse ++ '\n' :: last.reverse := by
      rw [← front.reverse_reverse, reversed, List.reverse_append, List.reverse_cons,
        List.append_assoc, List.singleton_append]
    have single : '\n' ∉ last.reverse := noNewline ∘ List.mem_reverse.mp
    obtain ⟨others, isWhole⟩ := splitOn_newline_append single behind
    have cut : (front ++ behind).splitOn '\n' =
        before.reverse.splitOn '\n' ++
          (last.reverse ++ behind.takeWhile (· ≠ '\n')) :: others := by
      rw [split, List.append_assoc, List.cons_append, List.splitOn_append_cons_self, isWhole]
    have number : front.count '\n' = (before.reverse.splitOn '\n').length := by
      rw [length_splitOn_newline, split, List.count_append, List.count_cons_self,
        List.count_eq_zero_of_not_mem single]
    refine ⟨last.reverse, behind.takeWhile (· ≠ '\n'), ?_, ?_, ?_⟩
    · rw [reversed, List.takeWhile_append_of_pos (ne_newline_of_mem noNewline),
        List.takeWhile_cons_of_neg (by simp), List.append_nil, List.length_reverse]
    · rw [cut, number, List.getElem?_append_right (Nat.le_refl _), Nat.sub_self]
      rfl
    · rw [cut, number, startOfLine, List.take_left, flatMap_splitOn_newline, ← byteCount_append,
        List.append_assoc, List.singleton_append, ← split]
  · obtain ⟨others, isWhole⟩ := splitOn_newline_append several behind
    refine ⟨front, behind.takeWhile (· ≠ '\n'), ?_, ?_, ?_⟩
    · rw [List.takeWhile_eq_self_iff.mpr, List.length_reverse]
      exact fun character isInside =>
        ne_newline_of_mem several character (List.mem_reverse.mp isInside)
    · rw [List.count_eq_zero_of_not_mem several, isWhole]
      rfl
    · rw [List.count_eq_zero_of_not_mem several]
      exact (Nat.zero_add _).symm

/-! ### The index -/

private theorem Line.map_characters_cut (start offset : Nat) (current rest : List Char) :
    (Line.cut start offset current rest).map Line.characters =
      (rest.splitOn '\n').modifyHead (current.reverse ++ ·) := by
  induction rest generalizing start offset current with
  | nil => simp [Line.cut, List.splitOn_nil]
  | cons first rest inductionHypothesis =>
      rw [Line.cut]
      by_cases isNewline : first = '\n'
      · rw [if_pos isNewline, List.map_cons, inductionHypothesis, isNewline, splitOn_newline]
        obtain ⟨others, isRest⟩ := exists_splitOn_newline rest
        rw [isRest]
        simp
      · obtain ⟨others, isRest⟩ := exists_splitOn_newline rest
        rw [if_neg isNewline, inductionHypothesis, splitOn_newline_cons isNewline, isRest]
        simp

namespace Source

variable {content : String}

/-- The lines of the index are the parts of the text between its newlines. -/
theorem map_characters_lines (content : String) :
    (ofString content).lines.toList.map Line.characters = content.toList.splitOn '\n' := by
  obtain ⟨others, isWhole⟩ := exists_splitOn_newline content.toList
  have cut := Line.map_characters_cut 0 0 [] content.toList
  rw [isWhole] at cut ⊢
  exact cut

theorem line?_eq_splitOn (content : String) (index : Nat) :
    (ofString content).line? (index + 1) =
      (content.toList.splitOn '\n')[index]?.map fun line =>
        String.ofList (line.rdropWhile (· = '\r')) := by
  rw [← map_characters_lines, List.getElem?_map, Option.map_map, Array.getElem?_toList]
  rfl

/-- Whether a character starts or the text ends at an offset. -/
def IsBoundary (content : String) (offset : Nat) : Prop :=
  ∃ front behind, content.toList = front ++ behind ∧ byteCount front = offset

/-- Offsets and positions have the same order. -/
theorem position?_before {first second : Nat} (isFirst : IsBoundary content first)
    (isSecond : IsBoundary content second) (smaller : first < second) :
    ∃ position further, (ofString content).position? first = some position ∧
      (ofString content).position? second = some further ∧ position.Before further := by
  obtain ⟨front, behind, split, rfl⟩ := isFirst
  obtain ⟨other, rest, otherSplit, rfl⟩ := isSecond
  refine ⟨_, _, position?_byteCount split, position?_byteCount otherSplit, ?_⟩
  rcases List.append_eq_append_iff.mp (split.symm.trans otherSplit) with
    ⟨between, rfl, _⟩ | ⟨between, rfl, _⟩
  · cases between with
    | nil =>
        rw [List.append_nil] at smaller
        exact absurd smaller (Nat.lt_irrefl _)
    | cons first between =>
        rw [Position.afterAll_append]
        exact (Position.origin.afterAll front).before_afterAll first between
  · rw [byteCount_append] at smaller
    exact absurd smaller (Nat.not_lt_of_le (Nat.le_add_right _ _))

private theorem position?_injective {first second : Nat} (isFirst : IsBoundary content first)
    (isSecond : IsBoundary content second)
    (same : (ofString content).position? first = (ofString content).position? second) :
    first = second := by
  by_contra different
  rcases Nat.lt_or_gt_of_ne different with smaller | smaller
  · obtain ⟨position, further, isPosition, isFurther, before⟩ :=
      position?_before isFirst isSecond smaller
    rw [isPosition, isFurther] at same
    exact before.ne (Option.some.inj same)
  · obtain ⟨position, further, isPosition, isFurther, before⟩ :=
      position?_before isSecond isFirst smaller
    rw [isPosition, isFurther] at same
    exact before.ne (Option.some.inj same).symm

private theorem line?_isSome_iff (content : String) (number : Nat) :
    ((ofString content).line? number).isSome ↔
      1 ≤ number ∧ number ≤ content.toList.count '\n' + 1 := by
  cases number with
  | zero => exact iff_of_false Bool.false_ne_true fun both => absurd both.1 (by decide)
  | succ index =>
      rw [line?_eq_splitOn, Option.isSome_map, ← length_splitOn_newline, isSome_getElem?]
      omega

/-- A position leads back to the offset: the start of its line, and the bytes of as many characters
of the line as there are columns. -/
theorem exists_line_of_position? (split : content.toList = front ++ behind) {position : Position}
    (isPosition : (ofString content).position? (byteCount front) = some position) :
    ∃ line, (content.toList.splitOn '\n')[position.line - 1]? = some line ∧
      position.column ≤ line.length ∧
      byteCount front = startOfLine (content.toList.splitOn '\n') (position.line - 1) +
        byteCount (line.take position.column) := by
  obtain ⟨inside, more, column, isLine, bytes⟩ := exists_line_reached front behind
  rw [position?_byteCount split, Position.afterAll_origin, ← column, Option.some.injEq]
    at isPosition
  subst isPosition
  rw [← split] at isLine bytes
  refine ⟨inside ++ more, ?_, ?_, ?_⟩
  · rwa [Nat.add_sub_cancel_left]
  · rw [List.length_append]
    exact Nat.le_add_right _ _
  · rwa [Nat.add_sub_cancel_left, List.take_left]

/-- The index of lines agrees with a plain scan and can be inverted.  Where a character starts or
the text ends, the position counts the newlines before the offset and the characters behind the last
of them, whether it is found by halving the lines or by looking the offset up among their starts;
beyond the end it is the position of the end.  Positions are in the order of their offsets.  There
are lines up to the number of newlines and one more, and each is the part of the text between two
newlines without the carriage returns at its end.  A position leads back to its offset. -/
theorem position?_isScan (content : String) :
    (∀ front behind, content.toList = front ++ behind →
      (ofString content).position? (byteCount front) =
        some ⟨1 + front.count '\n', (front.reverse.takeWhile (· ≠ '\n')).length⟩ ∧
      Guarded.position? content.toList (byteCount front) =
        (ofString content).position? (byteCount front)) ∧
    (∀ offset, (ofString content).size ≤ offset →
      (ofString content).position? offset =
        (ofString content).position? (ofString content).size) ∧
    (∀ first second, IsBoundary content first → IsBoundary content second → first < second →
      ∃ position further, (ofString content).position? first = some position ∧
        (ofString content).position? second = some further ∧ position.Before further) ∧
    (∀ first second, IsBoundary content first → IsBoundary content second →
      (ofString content).position? first = (ofString content).position? second →
      first = second) ∧
    (∀ number, ((ofString content).line? number).isSome ↔
      1 ≤ number ∧ number ≤ content.toList.count '\n' + 1) ∧
    (∀ index, (ofString content).line? (index + 1) =
      (content.toList.splitOn '\n')[index]?.map fun line =>
        String.ofList (line.rdropWhile (· = '\r'))) ∧
    ∀ front behind position, content.toList = front ++ behind →
      (ofString content).position? (byteCount front) = some position →
      ∃ line, (content.toList.splitOn '\n')[position.line - 1]? = some line ∧
        position.column ≤ line.length ∧
        byteCount front = startOfLine (content.toList.splitOn '\n') (position.line - 1) +
          byteCount (line.take position.column) := by
  refine ⟨fun front behind split => ⟨?_, ?_⟩, fun offset beyond => ?_,
    fun first second => position?_before, fun first second => position?_injective,
    line?_isSome_iff content, line?_eq_splitOn content,
    fun front behind position split => exists_line_of_position? split⟩
  · rw [position?_byteCount split, Position.afterAll_origin]
  · rw [position?_byteCount split, split, Guarded.position?_byteCount]
  · unfold position?
    rw [Nat.min_eq_right beyond, Nat.min_self]

/-- The carriage return on the second of three lines, behind a character of two bytes. -/
theorem position?_isScan_second :
    let content := "a\né\r\n"
    content.toList = ['a', '\n', 'é'] ++ ['\r', '\n'] ∧
    (ofString content).position? (byteCount ['a', '\n', 'é']) = some ⟨2, 1⟩ ∧
    ∃ line, (content.toList.splitOn '\n')[2 - 1]? = some line ∧ 1 ≤ line.length ∧
      byteCount ['a', '\n', 'é'] =
        startOfLine (content.toList.splitOn '\n') (2 - 1) + byteCount (line.take 1) := by
  intro content
  have split : content.toList = ['a', '\n', 'é'] ++ ['\r', '\n'] := by decide
  obtain ⟨scan, _, _, _, _, _, inverse⟩ := position?_isScan content
  have isPosition := (scan _ _ split).1
  exact ⟨split, isPosition, inverse _ _ ⟨2, 1⟩ split isPosition⟩

end Source

end SprigCompiler
