import SprigCompiler.Proofs.Grammar.Shapes
import SprigCompiler.Proofs.Javascript.Normal
import SprigCompiler.Proofs.Javascript.StringLiteral

/-!
A reader of emitted programs.

It finds the normal form of a tree in the text that was emitted for it, without its locations.  What
stands next is told by one or two characters or by a word, so it never goes back.  It expects such a
text and does not look for errors; the bound that every part of it takes only keeps it from running
on in other texts.

A string is read one written character at a time.  By the rules of JavaScript the digit behind the
escape of a null character could belong to that escape; here it does not.
-/

namespace SprigCompiler.Printed

open Javascript

def nowhere : Location := ⟨0, 0, 0, 0⟩

def isPlain (character : Char) : Bool :=
  Piece.isWordCharacter character || Piece.isNumberCharacter character || character == '-'

def plain (text : List Char) : Node :=
  if text.head?.any Piece.isWordCharacter then Node.valueOf (String.ofList text) nowhere
  else .number ((Decimal.read? text).getD ⟨0⟩) nowhere

def cutEscape (first : Char) (rest : List Char) : List Char × List Char :=
  if first ≠ '\\' then ([first], rest)
  else if rest.head? = some 'u' then
    (first :: (rest.takeWhile (· ≠ '\x7d') ++ ['\x7d']), (rest.dropWhile (· ≠ '\x7d')).tail)
  else (first :: rest.take 1, rest.drop 1)

def inside? : Nat → List Char → Option (List Char × List Char)
  | 0, _ => none
  | _ + 1, [] => none
  | fuel + 1, first :: rest =>
      if first = '"' then some ([], rest)
      else do
        let unit := cutEscape first rest
        let (character, _) ← readInside? .plain (unit.1 ++ ['"'])
        let (others, behind) ← inside? fuel unit.2
        return (character ++ others, behind)

def leaf? (fuel : Nat) : List Char → Option (Node × List Char)
  | [] => none
  | first :: rest =>
      if first = '"' then
        (inside? fuel rest).map fun found => (.string (String.ofList found.1) nowhere, found.2)
      else some (plain ((first :: rest).takeWhile isPlain), (first :: rest).dropWhile isPlain)

def arguments? : Nat → List Char → Option (List Node × List Char)
  | 0, _ => none
  | fuel + 1, text =>
      if text.head? = some ')' then some ([], text.tail)
      else do
        let (first, rest) ← leaf? fuel (if text.head? = some ',' then text.drop 2 else text)
        let (others, rest) ← arguments? fuel rest
        return (first :: others, rest)

def operator? (text : List Char) : Option MathOperator :=
  if text.head? = some ' ' then
    [MathOperator.add, .sub, .mul, .div].find? fun operator =>
      text.tail.head? = operator.sign.toList.head?
  else none

def operand? (fuel : Nat) (value? : List Char → Option (Node × List Char)) (text : List Char) :
    Option (Node × List Char) :=
  if text.head? = some '(' then do
    let (value, rest) ← value? text.tail
    return (value, rest.tail)
  else do
    let (leaf, rest) ← leaf? fuel text
    if rest.head? = some '(' then do
      let (arguments, rest) ← arguments? fuel rest.tail
      return (.application .call leaf arguments nowhere, rest)
    else return (leaf, rest)

def value? : Nat → List Char → Option (Node × List Char)
  | 0, _ => none
  | fuel + 1, text => do
      let (left, rest) ← operand? fuel (value? fuel) text
      match operator? rest with
      | none => return (left, rest)
      | some operator => do
          let (right, rest) ← operand? fuel (value? fuel) (rest.drop 3)
          return (.math operator left right nowhere, rest)

def binding? (fuel : Nat) (text : List Char) : Option (Node × List Char) := do
  let name := plain (text.takeWhile isPlain)
  let (value, rest) ← value? fuel ((text.dropWhile isPlain).drop 3)
  return (.statement .binding (.assignment name value nowhere) nowhere, rest.tail)

def line? (fuel : Nat) (text : List Char) : Option (Node × List Char) :=
  let rest := (text.dropWhile isPlain).tail
  if text.takeWhile isPlain = "var".toList then binding? fuel rest
  else do
    let (value, rest) ← value? fuel rest
    return (.statement .result value nowhere, rest.tail)

def lines? : Nat → List Char → Option (List Node × List Char)
  | 0, _ => none
  | fuel + 1, text =>
      let text := text.dropWhile (· = ' ')
      if text.head? = some '\x7d' then some ([], text.tail)
      else do
        let (line, rest) ← line? fuel text
        let (others, rest) ← lines? fuel rest.tail
        return (line :: others, rest)

def function? (fuel : Nat) (text : List Char) : Option (Node × List Char) := do
  let name := plain (text.takeWhile isPlain)
  let (parameters, rest) ← arguments? fuel (text.dropWhile isPlain).tail
  let (lines, rest) ← lines? fuel (rest.drop 3)
  let header : Node := .application .functionParameters name parameters nowhere
  return (.statement .function (.assignment header (.block lines nowhere) nowhere) nowhere, rest)

/-- A statement of a program.  Only a call has a parenthesis directly behind its first word. -/
def paragraph? (fuel : Nat) (text : List Char) : Option (Node × List Char) :=
  let word := text.takeWhile isPlain
  let rest := text.dropWhile isPlain
  if rest.head? = some '(' then do
    let (arguments, rest) ← arguments? fuel rest.tail
    let called : Node := .application .call (plain word) arguments nowhere
    return (.statement .main called nowhere, rest.tail)
  else if word = "var".toList then binding? fuel rest.tail
  else function? fuel rest.tail

def paragraphs? : Nat → List Char → Option (List Node)
  | 0, _ => none
  | _ + 1, [] => some []
  | fuel + 1, _ :: text => do
      let (paragraph, rest) ← paragraph? fuel text
      let others ← paragraphs? fuel rest.tail
      return paragraph :: others

def program? (fuel : Nat) (text : List Char) : Option Node :=
  (paragraphs? fuel (text.drop (prelude.length + 1))).map fun body => .program body nowhere

section Strings

variable (hidden : Char → Bool) (character : Char) (more : List Char)

private theorem ne_brace_of_mem_toDigits (number : Nat) :
    ∀ digit ∈ Nat.toDigits 16 number, digit ≠ '\x7d' := by
  have noBrace : ∀ digit : Fin 16, digit.val.digitChar ≠ '\x7d' := by decide
  intro digit isMember
  obtain ⟨value, isDigit, rfl⟩ := digit_of_mem_toDigits number isMember
  exact noBrace ⟨value, isDigit⟩

private theorem cutEscape_codeEscape : ∃ rest, Quoted.codeEscape character = '\\' :: rest ∧
    cutEscape '\\' (rest ++ more) = ('\\' :: rest, more) := by
  let inside := 'u' :: '\x7b' :: Nat.toDigits 16 character.toNat
  refine ⟨inside ++ ['\x7d'], rfl, ?_⟩
  have noBrace : ∀ digit ∈ inside, decide (digit ≠ '\x7d') = true := by
    intro digit isMember
    rw [decide_eq_true_eq]
    rcases List.mem_cons.mp isMember with rfl | isMember
    · decide
    rcases List.mem_cons.mp isMember with rfl | isMember
    · decide
    exact ne_brace_of_mem_toDigits _ digit isMember
  have stops : ∀ next ∈ ('\x7d' :: more).head?, decide (next ≠ '\x7d') = false := by
    rintro next ⟨⟩
    rfl
  have taken := Piece.takeWhile_append_of_all noBrace stops
  have dropped := Piece.dropWhile_append_of_all noBrace stops
  have starts : (inside ++ '\x7d' :: more).head? = some 'u' := rfl
  unfold cutEscape
  rw [if_neg (by decide), List.append_assoc, List.singleton_append, if_pos starts, taken, dropped]
  rfl

/-- The first written character is cut off as a whole. -/
theorem cutEscape_escape : ∃ first rest, Quoted.escape hidden '"' character = first :: rest ∧
    first ≠ '"' ∧ cutEscape first (rest ++ more) = (first :: rest, more) := by
  unfold Quoted.escape
  cases hasEscape : Quoted.shortEscape? '"' character with
  | some letter =>
      refine ⟨'\\', [letter], rfl, by decide, ?_⟩
      have noUnicode : (letter :: more).head? ≠ some 'u' := by
        rcases letter_of_shortEscape hasEscape with ⟨_, rfl⟩ | ⟨_, isPlain, _⟩
        · exact fun same => absurd (Option.some.inj same) (by decide)
        · exact fun same => isPlain (Option.some.inj same ▸ List.mem_cons_self)
      unfold cutEscape
      rw [if_neg (by decide), List.singleton_append, if_neg noUnicode]
      rfl
  | none =>
      dsimp only
      split
      · obtain ⟨rest, isCode, isCut⟩ := cutEscape_codeEscape character more
        exact ⟨'\\', rest, isCode, by decide, isCut⟩
      · have differs : ∀ other : Char, Quoted.shortEscape? '"' other ≠ none →
            character ≠ other := by
          rintro other isEscaped rfl
          exact isEscaped hasEscape
        refine ⟨character, [], rfl, differs '"' (by decide), ?_⟩
        unfold cutEscape
        rw [if_pos (differs '\\' (by decide))]
        rfl

/-- A written string is read up to its closing quote. -/
theorem inside?_flatMap (characters : List Char) {fuel : Nat}
    (isEnough : characters.length < fuel) :
    inside? fuel (characters.flatMap (Quoted.escape hidden '"') ++ '"' :: more) =
      some (characters, more) := by
  induction characters generalizing fuel with
  | nil =>
      cases fuel with
      | zero => omega
      | succ fuel => rfl
  | cons character characters inductionHypothesis =>
      cases fuel with
      | zero => omega
      | succ fuel =>
          obtain ⟨first, rest, isWritten, noQuote, isCut⟩ := cutEscape_escape hidden character
            (characters.flatMap (Quoted.escape hidden '"') ++ '"' :: more)
          have isRead : readInside? .plain (first :: rest ++ ['"']) = some ([character], []) := by
            rw [← isWritten, readInside?_escape, if_neg fun both => Bool.noConfusion both.2]
            rfl
          rw [List.flatMap_cons, List.append_assoc, isWritten, List.cons_append, inside?,
            if_neg noQuote]
          dsimp only
          rw [isCut]
          simp only [isRead, inductionHypothesis (Nat.lt_of_succ_lt_succ isEnough),
            Option.bind_eq_bind, Option.bind_some]
          rfl

end Strings

end SprigCompiler.Printed
