import SprigCompiler.Proofs.Javascript.Mentions
import SprigCompiler.Proofs.Javascript.Pages

/-!
Text inside blocks.

The blocks that are open when a text is written show at the line breaks only: their blanks stand
behind each of them.  Strings and numbers are written without line breaks, so no blank is put into
one, and no token changes.
-/

namespace SprigCompiler

def indented (count : Nat) (text : List Char) : List Char :=
  text.flatMap fun character =>
    if character = '\n' then '\n' :: List.replicate count ' ' else [character]

/-- A text that stands inside `depth` more blocks: the blanks of these blocks are behind every
newline. -/
def Page.nested (depth : Nat) (text : String) : String :=
  String.ofList (indented (2 * depth) text.toList)

section Indented

variable {count : Nat} {first : Char} {rest front behind : List Char}

theorem indented_newline :
    indented count ('\n' :: rest) = '\n' :: (List.replicate count ' ' ++ indented count rest) := rfl

theorem indented_cons (noNewline : first ≠ '\n') :
    indented count (first :: rest) = first :: indented count rest := by
  unfold indented
  rw [List.flatMap_cons, if_neg noNewline]
  rfl

theorem indented_append :
    indented count (front ++ behind) = indented count front ++ indented count behind :=
  List.flatMap_append

theorem indented_of_single (single : '\n' ∉ front) : indented count front = front := by
  induction front with
  | nil => rfl
  | cons first rest inductionHypothesis =>
      rw [List.mem_cons, not_or] at single
      rw [indented_cons (Ne.symm single.1), inductionHypothesis single.2]

private theorem indented_zero (text : List Char) : indented 0 text = text := by
  induction text with
  | nil => rfl
  | cons first rest inductionHypothesis =>
      by_cases isNewline : first = '\n'
      · rw [isNewline, indented_newline, inductionHypothesis]
        rfl
      · rw [indented_cons isNewline, inductionHypothesis]

end Indented

namespace Page

variable {depth : Nat} {text : String}

theorem nested_append (depth : Nat) (front behind : String) :
    nested depth (front ++ behind) = nested depth front ++ nested depth behind := by
  unfold nested
  rw [String.toList_append, indented_append, String.ofList_append]

theorem nested_of_single (single : '\n' ∉ text.toList) : nested depth text = text := by
  unfold nested
  rw [indented_of_single single, String.ofList_toList]

theorem nested_zero (text : String) : nested 0 text = text := by
  unfold nested
  rw [indented_zero, String.ofList_toList]

theorem nested_newline (depth : Nat) : nested depth "\n" = "\n" ++ indentation depth := by
  unfold nested indentation
  rw [show indented (2 * depth) "\n".toList = ['\n'] ++ List.replicate (2 * depth) ' ' by
    simp [indented], String.ofList_append]

theorem indentation_add (inner outer : Nat) :
    indentation (inner + outer) = indentation outer ++ indentation inner := by
  unfold indentation
  rw [← String.ofList_append, List.replicate_append_replicate, ← Nat.mul_add, Nat.add_comm]

theorem nested_indentation (depth inner : Nat) :
    nested depth (indentation inner) = indentation inner := by
  refine nested_of_single fun isNewline => ?_
  unfold indentation at isNewline
  rw [String.toList_ofList] at isNewline
  exact absurd (List.eq_of_mem_replicate isNewline) (by decide)

/-- A block inside more blocks encloses lines whose last newline already has the blanks for the
closing brace. -/
theorem enclosed_nested {outer depth : Nat} {inner lines : String}
    (same : inner ++ indentation outer = indentation outer ++ nested outer lines) :
    enclosed (depth + outer) inner = nested outer (enclosed depth lines) := by
  have opening : nested outer "\x7b\n" = "\x7b\n" ++ indentation outer := by
    rw [show "\x7b\n" = "\x7b" ++ "\n" from rfl, nested_append, nested_newline,
      nested_of_single (by decide), String.append_assoc]
  have closing : nested outer "\x7d" = "\x7d" := nested_of_single (by decide)
  simp only [enclosed, nested_append, opening, closing, nested_indentation, indentation_add,
    String.append_assoc]
  rw [← @String.append_assoc inner, same, String.append_assoc]

theorem returned_nested (outer depth : Nat) (value : String) :
    returned (depth + outer) (nested outer value) = nested outer (returned depth value) := by
  have closing : nested outer ";\n" = ";\n" ++ indentation outer := by
    rw [show ";\n" = ";" ++ "\n" from rfl, nested_append, nested_newline,
      nested_of_single (by decide), String.append_assoc]
  refine enclosed_nested ?_
  rw [Nat.add_right_comm, indentation_add]
  simp (disch := decide) only [nested_append, nested_indentation, nested_of_single, closing,
    String.append_assoc]

end Page

private theorem Quoted.newline_not_mem_escape (hidden : Char → Bool) (character : Char) :
    '\n' ∉ escape hidden '"' character := by
  unfold escape
  cases hasEscape : shortEscape? '"' character with
  | some letter =>
      have noNewline : '\n' ≠ letter := by
        rintro rfl
        rcases Javascript.letter_of_shortEscape hasEscape with ⟨_, isZero⟩ | ⟨_, _, noLetter⟩
        · cases isZero
        · cases noLetter
      simpa using noNewline
  | none =>
      dsimp only
      split
      · intro isNewline
        rcases List.mem_cons.mp isNewline with isBackslash | isCode
        · cases isBackslash
        · have isPlain := Javascript.isPlainInString_code character.toNat
          rcases List.mem_cons.mp isCode with isLetter | isInside
          · cases isLetter
          · cases isPlain '\n' isInside
      · rw [List.mem_singleton]
        rintro rfl
        cases hasEscape

/-- A quoted text stays on one line. -/
theorem Quoted.newline_not_mem_text (content : String) : '\n' ∉ (text content).toList := by
  unfold text enclose
  rw [String.toList_ofList, List.mem_cons, List.mem_append, List.mem_flatMap, List.mem_singleton]
  rintro (isMark | ⟨character, _, isInside⟩ | isMark)
  · cases isMark
  · exact newline_not_mem_escape isUnprintable character isInside
  · cases isMark

/-- A number stays on one line. -/
theorem Decimal.newline_not_mem_write (number : Binary64) :
    '\n' ∉ (write "Infinity" number).toList := by
  have signed_single {text : List Char} (single : '\n' ∉ text) :
      '\n' ∉ (String.ofList (signed number.isNegative text)).toList := by
    rw [String.toList_ofList]
    cases number.isNegative with
    | true => exact List.not_mem_cons_of_ne_of_not_mem (by decide) single
    | false => exact single
  cases isNumber : number.isNaN with
  | true =>
      rw [write, isNumber, if_pos rfl]
      decide
  | false =>
      cases isFinite : number.isInfinite with
      | true =>
          rw [write, isNumber, isFinite, if_neg Bool.false_ne_true, if_pos rfl]
          exact signed_single (by decide)
      | false =>
          obtain ⟨numeral, isWritten, _⟩ := exists_write "Infinity" isNumber isFinite
          rw [isWritten]
          refine signed_single fun isNewline => ?_
          rcases numeral.digit_or_point isNewline with isDigit | isPoint
          · cases isDigit
          · cases isPoint

/-! ### Tokens -/

namespace Javascript

variable {first quote : Char} {rest sign : List Char} {isPart : Char → Bool}

private theorem head?_indented (count : Nat) (text : List Char) :
    (indented count text).head? = text.head? := by
  cases text with
  | nil => rfl
  | cons first rest =>
      by_cases isNewline : first = '\n'
      · rw [isNewline]
        rfl
      · rw [indented_cons isNewline]
        rfl

private theorem takeWhile_indented (noNewline : isPart '\n' = false) (count : Nat)
    (text : List Char) :
    (indented count text).takeWhile isPart = text.takeWhile isPart ∧
      (indented count text).dropWhile isPart = indented count (text.dropWhile isPart) := by
  induction text with
  | nil => exact ⟨rfl, rfl⟩
  | cons first rest inductionHypothesis =>
      by_cases isNewline : first = '\n'
      · subst isNewline
        have noPart : ¬isPart '\n' = true := by rw [noNewline]; exact Bool.false_ne_true
        rw [indented_newline, List.takeWhile_cons_of_neg noPart, List.dropWhile_cons_of_neg noPart,
          List.takeWhile_cons_of_neg noPart, List.dropWhile_cons_of_neg noPart, indented_newline]
        exact ⟨rfl, rfl⟩
      · rw [indented_cons isNewline]
        cases isFirst : isPart first with
        | true =>
            rw [List.takeWhile_cons_of_pos isFirst, List.dropWhile_cons_of_pos isFirst,
              List.takeWhile_cons_of_pos isFirst, List.dropWhile_cons_of_pos isFirst,
              inductionHypothesis.1, inductionHypothesis.2]
            exact ⟨rfl, rfl⟩
        | false =>
            have noPart : ¬isPart first = true := by rw [isFirst]; exact Bool.false_ne_true
            rw [List.takeWhile_cons_of_neg noPart, List.dropWhile_cons_of_neg noPart,
              List.takeWhile_cons_of_neg noPart, List.dropWhile_cons_of_neg noPart,
              indented_cons isNewline]
            exact ⟨rfl, rfl⟩

/-- No line ends inside a string, so nothing is put into one. -/
theorem insideString?_indented (noNewline : quote ≠ '\n') (count : Nat) (escaped : Bool)
    (text : List Char) :
    insideString? quote escaped (indented count text) =
      (insideString? quote escaped text).map fun found => (found.1, indented count found.2) := by
  induction text generalizing escaped with
  | nil => rfl
  | cons first rest inductionHypothesis =>
      by_cases isNewline : first = '\n'
      · subst isNewline
        have noQuote : ¬('\n' = quote ∧ escaped = false) := fun both => noNewline both.1.symm
        rw [indented_newline, insideString?, insideString?, if_neg noQuote, if_neg noQuote,
          if_pos (Or.inl rfl), if_pos (Or.inl rfl)]
        rfl
      · rw [indented_cons isNewline, insideString?, insideString?]
        split
        · rfl
        · split
          · rfl
          · rw [inductionHypothesis, Option.map_map, Option.map_map]
            rfl

private theorem isPrefixOf_indented (single : '\n' ∉ sign) (count : Nat) (text : List Char) :
    sign.isPrefixOf (indented count text) = sign.isPrefixOf text := by
  induction sign generalizing text with
  | nil => rfl
  | cons head sign inductionHypothesis =>
      rw [List.mem_cons, not_or] at single
      cases text with
      | nil => rfl
      | cons first rest =>
          by_cases isNewline : first = '\n'
          · subst isNewline
            rw [indented_newline, List.isPrefixOf, List.isPrefixOf,
              beq_false_of_ne (Ne.symm single.1), Bool.false_and, Bool.false_and]
          · rw [indented_cons isNewline, List.isPrefixOf, List.isPrefixOf,
              inductionHypothesis single.2]

private theorem punctuator?_indented (count : Nat) (text : List Char) :
    punctuator? (indented count text) = punctuator? text := by
  have singles : ∀ sign ∈ punctuators, '\n' ∉ sign := by decide
  unfold punctuator?
  generalize punctuators = signs at singles
  induction signs with
  | nil => rfl
  | cons sign others inductionHypothesis =>
      obtain ⟨isSingle, areSingles⟩ := List.forall_mem_cons.mp singles
      rw [List.find?_cons, List.find?_cons, isPrefixOf_indented isSingle,
        inductionHypothesis areSingles]

private theorem drop_indented (isSign : punctuator? (first :: rest) = some sign) (count : Nat) :
    (indented count rest).drop (sign.length - 1) =
      indented count (rest.drop (sign.length - 1)) := by
  have single : '\n' ∉ sign := by
    have singles : ∀ sign ∈ punctuators, '\n' ∉ sign := by decide
    exact singles sign (List.mem_of_find?_eq_some isSign)
  unfold punctuator? at isSign
  have starts := List.find?_some isSign
  obtain ⟨more, whole⟩ := List.isPrefixOf_iff_prefix.mp starts
  cases sign with
  | nil => rfl
  | cons head others =>
      rw [List.cons_append, List.cons.injEq] at whole
      rw [← whole.2, List.length_cons, Nat.add_sub_cancel, indented_append,
        indented_of_single fun isNewline => single (List.mem_cons_of_mem _ isNewline),
        List.drop_left, List.drop_left]

/-- The first token of an indented text is the one without blanks. -/
theorem token?_indented (noNewline : first ≠ '\n') (count : Nat) (rest : List Char) :
    token? first (indented count rest) =
      (token? first rest).map fun found => (found.1, indented count found.2) := by
  obtain ⟨word, behindWord⟩ :=
    @takeWhile_indented isWordPart (by decide) count rest
  obtain ⟨numeral, behindNumeral⟩ :=
    @takeWhile_indented isNumeralPart (by decide) count rest
  unfold token?
  rw [word, behindWord, numeral, behindNumeral, head?_indented, ← indented_cons noNewline,
    punctuator?_indented]
  split
  · rfl
  · split
    · rfl
    · split
      · split <;> rfl
      · split
        · rw [insideString?_indented noNewline, Option.map_map, Option.map_map]
          rfl
        · split
          · rfl
          · cases isSign : punctuator? (first :: rest) with
            | none => rfl
            | some sign => rw [Option.map_some, Option.map_some, drop_indented isSign]; rfl

private theorem tokens?_blanks (count : Nat) (text : List Char) :
    tokens? (List.replicate count ' ' ++ text) = tokens? text := by
  induction count with
  | zero => rfl
  | succ count inductionHypothesis =>
      rw [List.replicate_succ, List.cons_append, tokens?_blank, inductionHypothesis]

/-- The blanks behind newlines change no token of a text. -/
theorem tokens?_indented (count : Nat) (text : List Char) :
    tokens? (indented count text) = tokens? text := by
  match text with
  | [] => rfl
  | first :: rest =>
      by_cases isNewline : first = '\n'
      · subst isNewline
        have same := tokens?_indented count rest
        rw [indented_newline, ← List.singleton_append, separates_newline, tokens?_blanks, same,
          ← List.singleton_append, separates_newline]
      · have moved := token?_indented isNewline count rest
        rw [indented_cons isNewline]
        cases isToken : token? first rest with
        | none =>
            rw [isToken, Option.map_none] at moved
            rw [tokens?, tokens?]
            split
            · split
              · rfl
              · rename_i isSome
                rw [isToken] at isSome
                cases isSome
            · rename_i isSome
              rw [moved] at isSome
              cases isSome
        | some found =>
            rw [isToken, Option.map_some] at moved
            have shorter := length_token?_le isToken
            rw [tokens?_cons moved, tokens?_cons isToken, tokens?_indented count found.2]
termination_by text.length

end Javascript

end SprigCompiler
