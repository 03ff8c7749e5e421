import Mathlib.Data.List.TakeWhile
import SprigCompiler.Token.Piece

/-!
Pieces at the seam of two texts.

Where a piece ends depends on at most one character behind it.  So the pieces of a text stay the
same when more text follows, unless the last of them goes on into that text.
-/

namespace SprigCompiler.Piece

variable {first next : Char} {rest more inside behind : List Char} {condition : Char → Bool}

/-- Induction from piece to piece: what holds of no characters, and of a text whenever it holds of
what stands behind the first piece, holds of every text. -/
@[elab_as_elim]
theorem split_induction {motive : List Char → Prop} (nil : motive [])
    (cons : ∀ first rest, motive (split first rest).2.2 → motive (first :: rest))
    (text : List Char) : motive text := by
  induction length : text.length using Nat.strong_induction_on generalizing text with
  | _ bound inductionHypothesis =>
      cases text with
      | nil => exact nil
      | cons first rest =>
          have shorter : (split first rest).2.2.length < bound := by
            have fewer := length_split_le first rest
            rw [List.length_cons] at length
            omega
          exact cons first rest (inductionHypothesis _ shorter _ rfl)

theorem takeWhile_append_of_apart
    (apart : rest.dropWhile condition = [] → ∀ next ∈ more.head?, condition next = false) :
    (rest ++ more).takeWhile condition = rest.takeWhile condition := by
  induction rest with
  | nil =>
      cases more with
      | nil => rfl
      | cons next more =>
          have stops := apart rfl next rfl
          rw [List.nil_append, List.takeWhile_cons_of_neg (by rw [stops]; exact Bool.false_ne_true)]
          rfl
  | cons first rest inductionHypothesis =>
      by_cases holds : condition first = true
      · rw [List.cons_append, List.takeWhile_cons_of_pos holds, List.takeWhile_cons_of_pos holds]
        rw [List.dropWhile_cons_of_pos holds] at apart
        rw [inductionHypothesis apart]
      · rw [List.cons_append, List.takeWhile_cons_of_neg holds, List.takeWhile_cons_of_neg holds]

theorem dropWhile_append_of_apart
    (apart : rest.dropWhile condition = [] → ∀ next ∈ more.head?, condition next = false) :
    (rest ++ more).dropWhile condition = rest.dropWhile condition ++ more := by
  have whole : (rest ++ more).takeWhile condition ++ (rest ++ more).dropWhile condition =
      rest ++ more := List.takeWhile_append_dropWhile
  have first : rest.takeWhile condition ++ rest.dropWhile condition = rest :=
    List.takeWhile_append_dropWhile
  rw [takeWhile_append_of_apart apart] at whole
  rw [← List.append_cancel_left_eq (rest.takeWhile condition), whole, ← List.append_assoc, first]

/-- A run of characters that meet a condition ends where the condition fails. -/
theorem takeWhile_append_of_all (all : ∀ character ∈ inside, condition character = true)
    (stops : ∀ next ∈ more.head?, condition next = false) :
    (inside ++ more).takeWhile condition = inside := by
  rw [takeWhile_append_of_apart fun _ => stops, List.takeWhile_eq_self_iff]
  exact all

theorem dropWhile_append_of_all (all : ∀ character ∈ inside, condition character = true)
    (stops : ∀ next ∈ more.head?, condition next = false) :
    (inside ++ more).dropWhile condition = more := by
  have nothing : inside.dropWhile condition = [] := List.dropWhile_eq_nil_iff.mpr all
  rw [dropWhile_append_of_apart fun _ => stops, nothing, List.nil_append]

theorem string_kind (rest : List Char) : (string rest).1 = .string := by
  unfold string
  cases rest.dropWhile (· ≠ '"') <;> rfl

theorem signed_kind (kind : TokenKind) (rest : List Char) :
    (signed kind rest).1 = .number ∨ (signed kind rest).1 = .sign kind := by
  cases rest with
  | nil => exact .inr rfl
  | cons first rest =>
      unfold signed
      by_cases isNumber : isNumberCharacter first = true
      · exact .inl (by simp only [isNumber, if_true]; rfl)
      · exact .inr (by simp only [isNumber]; rfl)

/-- Whether a character directly behind a piece goes on with it, given the characters of the piece
behind its first one. -/
def takes (kind : PieceKind) (inside : List Char) (next : Char) : Bool :=
  match kind with
  | .string => !inside.contains '"'
  | .number => isNumberCharacter next
  | .word => isWordCharacter next
  | .blank => isBlankCharacter next
  | .sign (.operator .plus) | .sign (.operator .minus) => isNumberCharacter next
  | .stray '\r' => next == '\n'
  | _ => false

theorem run_append (kind : PieceKind)
    (apart : (run kind condition rest).2.2 = [] → ∀ next ∈ more.head?, condition next = false) :
    run kind condition (rest ++ more) =
      (kind, (run kind condition rest).2.1, (run kind condition rest).2.2 ++ more) := by
  unfold run at apart ⊢
  rw [takeWhile_append_of_apart apart, dropWhile_append_of_apart apart]

private theorem string_append
    (apart : (string rest).2.2 = [] →
      ∀ next ∈ more.head?, takes (string rest).1 (string rest).2.1 next = false) :
    string (rest ++ more) =
      ((string rest).1, (string rest).2.1, (string rest).2.2 ++ more) := by
  cases quoted : rest.dropWhile (· ≠ '"') with
  | nil =>
      have noQuote : (rest.takeWhile (· ≠ '"')).contains '"' = false := by
        rw [List.contains_eq_mem, decide_eq_false_iff_not]
        intro isMember
        have differs := List.mem_takeWhile_imp isMember
        simp at differs
      have isOpen : string rest = (.string, rest.takeWhile (· ≠ '"'), []) := by
        unfold string
        rw [quoted]
      cases more with
      | nil => rw [List.append_nil, List.append_nil]
      | cons next more =>
          rw [isOpen] at apart
          have taken := apart rfl next rfl
          unfold takes at taken
          rw [noQuote] at taken
          cases taken
  | cons quote behind =>
      have closed : rest.dropWhile (· ≠ '"') = [] →
          ∀ next ∈ more.head?, decide (next ≠ '"') = false := by
        rw [quoted]
        exact nofun
      unfold string
      rw [dropWhile_append_of_apart closed, takeWhile_append_of_apart closed, quoted]
      rfl

private theorem signed_append {kind : TokenKind}
    (takesNumber : ∀ next, takes (.sign kind) [] next = isNumberCharacter next)
    (apart : (signed kind rest).2.2 = [] →
      ∀ next ∈ more.head?, takes (signed kind rest).1 (signed kind rest).2.1 next = false) :
    signed kind (rest ++ more) =
      ((signed kind rest).1, (signed kind rest).2.1, (signed kind rest).2.2 ++ more) := by
  cases rest with
  | nil =>
      cases more with
      | nil => rfl
      | cons next more =>
          have noNumber : takes (.sign kind) [] next = false := apart rfl next rfl
          rw [takesNumber] at noNumber
          simp only [List.nil_append, signed, noNumber, Bool.false_eq_true, if_false]
  | cons first rest =>
      rw [List.cons_append]
      by_cases isNumber : isNumberCharacter first = true
      · simp only [signed, isNumber, if_true] at apart ⊢
        exact run_append .number apart
      · simp only [signed, isNumber]
        rfl

private theorem carriageReturn_append
    (apart : (carriageReturn rest).2.2 = [] →
      ∀ next ∈ more.head?, takes (carriageReturn rest).1 (carriageReturn rest).2.1 next = false) :
    carriageReturn (rest ++ more) =
      ((carriageReturn rest).1, (carriageReturn rest).2.1, (carriageReturn rest).2.2 ++ more) := by
  cases rest with
  | nil =>
      cases more with
      | nil => rfl
      | cons next more =>
          have noNewline : (next == '\n') = false := apart rfl next rfl
          rw [beq_eq_false_iff_ne] at noNewline
          simp only [List.nil_append, carriageReturn, noNewline, if_false]
  | cons first rest =>
      by_cases isNewline : first = '\n'
      · simp only [List.cons_append, carriageReturn, isNewline, if_true]
      · simp only [List.cons_append, carriageReturn, isNewline, if_false]

/-- The first piece of a text stays the same when more text follows, unless it is the whole text
and the next character goes on with it. -/
theorem split_append_of_apart
    (apart : (split first rest).2.2 = [] →
      ∀ next ∈ more.head?, takes (split first rest).1 (split first rest).2.1 next = false) :
    split first (rest ++ more) =
      ((split first rest).1, (split first rest).2.1, (split first rest).2.2 ++ more) := by
  unfold split at apart ⊢
  split_ifs at apart ⊢ with isQuote isNumber isWord isBlank isNewline isReturn isPlus isMinus
  · exact string_append apart
  · exact run_append .number apart
  · exact run_append .word apart
  · exact run_append .blank apart
  · rfl
  · exact carriageReturn_append apart
  · exact signed_append (fun _ => rfl) apart
  · exact signed_append (fun _ => rfl) apart
  · cases TokenKind.ofSign? first <;> rfl

/-- Letters come behind the digits. -/
theorem toNat_of_isAlpha (isAlpha : first.isAlpha = true) : 65 ≤ first.toNat := by
  rcases Bool.or_eq_true_iff.mp isAlpha with isUpper | isLower
  · have bounds : 'A'.val ≤ first.val ∧ first.val ≤ 'Z'.val := of_decide_eq_true isUpper
    exact UInt32.le_iff_toNat_le.mp bounds.1
  · have bound : 'a'.val ≤ first.val := of_decide_eq_true (Bool.and_eq_true_iff.mp isLower).1
    have isLate : 97 ≤ first.toNat := UInt32.le_iff_toNat_le.mp bound
    omega

theorem not_number_of_word (isWord : isWordCharacter first = true) :
    isNumberCharacter first = false := by
  rw [← Bool.not_eq_true]
  intro isNumber
  rcases Bool.or_eq_true_iff.mp isNumber with isDigit | isPoint
  · have bounds := Char.isDigit_iff_toNat.mp isDigit
    have isEarly : first.toNat ≤ 57 := bounds.2
    rcases Bool.or_eq_true_iff.mp isWord with isAlpha | isScore
    · have isLate := toNat_of_isAlpha isAlpha
      omega
    · rw [beq_iff_eq.mp isScore] at isEarly
      revert isEarly
      decide
  · rw [beq_iff_eq.mp isPoint] at isWord
    cases isWord

theorem ne_of_condition {character other : Char} (holds : condition character = true)
    (fails : condition other = false) : character ≠ other := by
  rintro rfl
  rw [holds] at fails
  cases fails

theorem split_number (isNumber : isNumberCharacter first = true) (rest : List Char) :
    split first rest = run .number isNumberCharacter rest := by
  have noQuote : first ≠ '"' := ne_of_condition isNumber rfl
  unfold split
  rw [if_neg noQuote, if_pos isNumber]

theorem split_word (isWord : isWordCharacter first = true) (rest : List Char) :
    split first rest = run .word isWordCharacter rest := by
  have noQuote : first ≠ '"' := ne_of_condition isWord rfl
  have noNumber : ¬isNumberCharacter first = true := by
    rw [not_number_of_word isWord]
    exact Bool.false_ne_true
  unfold split
  rw [if_neg noQuote, if_neg noNumber, if_pos isWord]

theorem split_blank (isBlank : isBlankCharacter first = true) (rest : List Char) :
    split first rest = run .blank isBlankCharacter rest := by
  rcases Bool.or_eq_true_iff.mp isBlank with isSpace | isTab
  · rw [beq_iff_eq.mp isSpace]
    rfl
  · rw [beq_iff_eq.mp isTab]
    rfl

theorem run_eq (kind : PieceKind) (all : ∀ character ∈ inside, condition character = true)
    (stops : ∀ next ∈ more.head?, condition next = false) :
    run kind condition (inside ++ more) = (kind, inside, more) := by
  unfold run
  rw [takeWhile_append_of_all all stops, dropWhile_append_of_all all stops]

theorem string_eq (noQuote : '"' ∉ inside) (more : List Char) :
    string (inside ++ '"' :: more) = (.string, inside ++ ['"'], more) := by
  have all : ∀ character ∈ inside, decide (character ≠ '"') = true := by
    intro character isMember
    rw [decide_eq_true_eq]
    rintro rfl
    exact noQuote isMember
  have stops : ∀ next ∈ ('"' :: more).head?, decide (next ≠ '"') = false := by
    intro next isNext
    cases isNext
    rfl
  unfold string
  rw [takeWhile_append_of_all all stops, dropWhile_append_of_all all stops]

end SprigCompiler.Piece
