import SprigCompiler.Proofs.Text.Positions

/-!
What a diagnostic shows of a text.

The index of lines has a line for every position, and the column of the position is where the line
shows the character that stands there.  Only carriage returns at the end of a line are not shown.
-/

namespace SprigCompiler

variable {front behind : List Char} {first : Char}

/-- What is shown of a line goes at least up to a character that is no carriage return. -/
theorem Line.text_append (start : Nat) (front behind : List Char) (shown : first ≠ '\r') :
    ∃ more, (Line.text ⟨start, front ++ first :: behind⟩).toList = front ++ first :: more := by
  unfold Line.text
  rw [String.toList_ofList, List.reverse_append, List.reverse_cons, List.append_assoc,
    List.dropWhile_append]
  split
  · have stops : ([first] ++ front.reverse).dropWhile (· = '\r') = first :: front.reverse :=
      List.dropWhile_cons_of_neg (by rw [decide_eq_true_eq]; exact shown)
    exact ⟨[], by rw [stops, List.reverse_cons, List.reverse_reverse]⟩
  · exact ⟨(behind.reverse.dropWhile (· = '\r')).reverse, by simp⟩

namespace Source

/-- The position behind some characters of a text lies on a line of it, and the next character is
shown at its column. -/
theorem exists_line? {content : String} (split : content.toList = front ++ behind) :
    ∃ line, (ofString content).line? (Position.origin.afterAll front).line = some line ∧
      ∀ next ∈ behind.head?, next ≠ '\n' → next ≠ '\r' →
        line.toList[(Position.origin.afterAll front).column]? = some next := by
  obtain ⟨done, found, inside, cut, -, -, -, counted⟩ := @Line.cut_append front behind 0 0 [] rfl
  obtain ⟨others, last, -⟩ := Line.cut_eq_cons found (0 + byteCount front) inside behind
  rw [← split, last] at cut
  have arrived : Position.origin.afterAll front = ⟨done.length + 1, inside.length⟩ := by
    rw [Nat.add_comm]
    exact counted 1
  have isLine : (ofString content).line? (done.length + 1) =
      some (Line.text ⟨found, inside.reverse ++ behind.takeWhile (· ≠ '\n')⟩) := by
    unfold line? ofString
    rw [cut]
    simp
  rw [arrived]
  refine ⟨_, isLine, fun next isNext noNewline noReturn => ?_⟩
  obtain ⟨rest, rfl⟩ := List.head?_eq_some_iff.mp isNext
  rw [List.takeWhile_cons_of_pos (by rw [decide_eq_true_eq]; exact noNewline)]
  obtain ⟨more, shown⟩ := Line.text_append found inside.reverse (rest.takeWhile (· ≠ '\n')) noReturn
  rw [shown, List.getElem?_append_right (by rw [List.length_reverse]), List.length_reverse,
    Nat.sub_self]
  rfl

end Source

end SprigCompiler
