import SprigCompiler.Text.Diagnostic

/-!
Line breaks with a carriage return.

A newline may have a carriage return in front of it.  To add the carriage returns that are missing
outside of strings moves no character to another line or column, and adds nothing to what is shown
of the lines.
-/

namespace SprigCompiler

/-- Some characters with a carriage return in front of every newline outside of strings that had
none.  `inString` tells whether the characters start inside a string, and `behindReturn` whether a
carriage return stands in front of them. -/
def withReturns (inString behindReturn : Bool) : List Char → List Char
  | [] => []
  | character :: rest =>
      let others := withReturns (inString != (character == '"')) (character == '\r') rest
      if character = '\n' ∧ inString = false ∧ behindReturn = false then
        '\r' :: character :: others
      else character :: others

def returned (content : String) : String := String.ofList (withReturns false false content.toList)

example : returned "let s = \"a\nb\"\r\nmain s\n" = "let s = \"a\nb\"\r\nmain s\r\n" := by
  decide +kernel

variable {inString behindReturn : Bool} {character : Char} {rest : List Char}

theorem withReturns_newline (rest : List Char) :
    withReturns false false ('\n' :: rest) = '\r' :: '\n' :: withReturns false false rest := rfl

/-- A newline that gets a carriage return stands outside of strings. -/
theorem withReturns_cases (inString behindReturn : Bool) (character : Char) (rest : List Char) :
    (character = '\n' ∧ inString = false ∧ behindReturn = false ∧
        withReturns inString behindReturn (character :: rest) =
          '\r' :: '\n' :: withReturns false false rest) ∨
      withReturns inString behindReturn (character :: rest) =
        character :: withReturns (inString != (character == '"')) (character == '\r') rest := by
  by_cases added : character = '\n' ∧ inString = false ∧ behindReturn = false
  · obtain ⟨rfl, rfl, rfl⟩ := added
    exact .inl ⟨rfl, rfl, rfl, withReturns_newline rest⟩
  · exact .inr (if_neg added)

theorem withReturns_of_ne (noNewline : character ≠ '\n') :
    withReturns inString behindReturn (character :: rest) =
      character :: withReturns (inString != (character == '"')) (character == '\r') rest := by
  rcases withReturns_cases inString behindReturn character rest with ⟨isNewline, _⟩ | kept
  · exact absurd isNewline noNewline
  · exact kept

theorem withReturns_inside :
    withReturns true behindReturn (character :: rest) =
      character :: withReturns (character != '"') (character == '\r') rest := by
  rcases withReturns_cases true behindReturn character rest with ⟨_, isOutside, _⟩ | kept
  · cases isOutside
  · exact kept.trans (by rw [Bool.true_bne]; rfl)

private theorem Position.after_return_newline (position : Position) :
    (position.after '\r').after '\n' = position.after '\n' := rfl

private theorem Position.afterAll_withReturns (inString behindReturn : Bool) (position : Position)
    (text : List Char) :
    position.afterAll (withReturns inString behindReturn text) = position.afterAll text := by
  unfold Position.afterAll
  induction text generalizing inString behindReturn position with
  | nil => rfl
  | cons character rest inductionHypothesis =>
      rcases withReturns_cases inString behindReturn character rest with
        ⟨rfl, _, _, added⟩ | kept
      · rw [added, List.foldl_cons, List.foldl_cons, List.foldl_cons, inductionHypothesis,
          after_return_newline]
      · rw [kept, List.foldl_cons, List.foldl_cons, inductionHypothesis]

theorem Source.endPosition_returned (content : String) :
    (Source.ofString (returned content)).endPosition = (Source.ofString content).endPosition := by
  unfold Source.endPosition Source.ofString returned
  rw [String.toList_ofList, Position.afterAll_withReturns]

/-- A carriage return at the end of a line is not shown. -/
theorem Line.text_return (start : Nat) (current : List Char) :
    Line.text ⟨start, ('\r' :: current).reverse⟩ = Line.text ⟨start, current.reverse⟩ := by
  unfold Line.text
  rw [List.reverse_reverse, List.reverse_reverse]
  rfl

private theorem Line.map_text_cut_withReturns (inString behindReturn : Bool)
    (start offset otherStart otherOffset : Nat) (current text : List Char) :
    (Line.cut otherStart otherOffset current (withReturns inString behindReturn text)).map
        Line.text =
      (Line.cut start offset current text).map Line.text := by
  induction text generalizing inString behindReturn start offset otherStart otherOffset current with
  | nil => rfl
  | cons character rest inductionHypothesis =>
      rcases withReturns_cases inString behindReturn character rest with
        ⟨rfl, _, _, added⟩ | kept
      · have opened (offset : Nat) : Line.cut otherStart offset current
            ('\r' :: '\n' :: withReturns false false rest) =
              ⟨otherStart, ('\r' :: current).reverse⟩ ::
                Line.cut (offset + 2) (offset + 2) [] (withReturns false false rest) := rfl
        have closed : Line.cut start offset current ('\n' :: rest) =
            ⟨start, current.reverse⟩ :: Line.cut (offset + 1) (offset + 1) [] rest := rfl
        -- The next line starts at different bytes in the two texts, which are not shown.
        rw [added, opened, closed, List.map_cons, List.map_cons, text_return,
          inductionHypothesis false false (offset + 1) (offset + 1)]
        rfl
      · rw [kept, Line.cut, Line.cut]
        split
        · rw [List.map_cons, List.map_cons, inductionHypothesis _ _ (offset + 1) (offset + 1)]
          rfl
        · exact inductionHypothesis _ _ _ _ _ _ _

private theorem Source.line?_returned (content : String) (number : Nat) :
    (Source.ofString (returned content)).line? number = (Source.ofString content).line? number := by
  cases number with
  | zero => rfl
  | succ index =>
      have shown (content : String) : (Source.ofString content).line? (index + 1) =
          ((Line.cut 0 0 [] content.toList).map Line.text)[index]? := by
        change (Line.cut 0 0 [] content.toList).toArray[index]?.map Line.text = _
        rw [List.getElem?_toArray, List.getElem?_map]
      rw [shown, shown, returned, String.toList_ofList, Line.map_text_cut_withReturns]

/-- A diagnostic is rendered in the same way. -/
theorem Diagnostic.render_returned (color : Bool) (content : String) (diagnostic : Diagnostic) :
    diagnostic.render color (.ofString (returned content)) =
      diagnostic.render color (.ofString content) := by
  unfold Diagnostic.render
  rw [Source.line?_returned]

end SprigCompiler
