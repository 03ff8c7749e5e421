import SprigCompiler.Number.Decimal
import SprigCompiler.Proofs.Javascript.Lexical
import SprigCompiler.Tree.Node

/-!
Expressions of JavaScript.

Sums and differences group to the left, and so do products and quotients, which bind tighter than
they do.  A minus in front of an operand binds tighter than any of them, a list of arguments behind
a callee tighter still.  Other forms of expressions are left out.

The grammar is unambiguous: a reader that never goes back reads every phrase as what it was derived
as, up to a token with which the phrase cannot go on.
-/

namespace SprigCompiler.Javascript

def reservedWords : List String :=
  ["await", "break", "case", "catch", "class", "const", "continue", "debugger", "default",
    "delete", "do", "else", "enum", "export", "extends", "false", "finally", "for", "function",
    "if", "import", "in", "instanceof", "new", "null", "return", "super", "switch", "this",
    "throw", "true", "try", "typeof", "var", "void", "while", "with", "yield", "let", "static",
    "implements", "interface", "package", "private", "protected", "public"]

/-- An expression, without the parentheses that only group. -/
inductive Expression where
  | name (text : List Char)
  | boolean (value : Bool)
  | number (value : Binary64)
  | string (written : List Char)
  | negative (operand : Expression)
  | call (callee : Expression) (arguments : List Expression)
  | binary (operator : MathOperator) (left right : Expression)
  deriving Repr

/-- The phrases of the grammar, from those that bind tightest to those that bind loosest. -/
inductive Phrase where
  | primary
  | call
  | unary
  | product
  | sum
  deriving DecidableEq, Repr

namespace Phrase

def inner : Phrase → Phrase
  | primary | call => primary
  | unary => call
  | product => unary
  | sum => product

def operators : Phrase → List MathOperator
  | primary | call | unary => []
  | product => [.mul, .div]
  | sum => [.add, .sub]

end Phrase

namespace Token

def opening : Token := .sign ['(']

def closing : Token := .sign [')']

def comma : Token := .sign [',']

def minus : Token := .sign ['-']

def operator (operator : MathOperator) : Token := .sign operator.sign.toList

end Token

inductive Leaf : Token → Expression → Prop where
  | name {text : List Char} (isName : String.ofList text ∉ reservedWords) :
      Leaf (.word text) (.name text)
  | boolean {text : List Char} {value : Bool}
      (isValue : String.ofList text = if value then "true" else "false") :
      Leaf (.word text) (.boolean value)
  | numeral {text : List Char} {value : Binary64}
      (isValue : Decimal.readDigits? false text = some value) :
      Leaf (.numeral text) (.number value)
  | string (text : List Char) : Leaf (.string text) (.string text)

def separated : List (List Token) → List Token
  | [] => []
  | argument :: others => argument ++ others.flatMap (Token.comma :: ·)

inductive Derives : Phrase → List Token → Expression → Prop where
  | leaf {token : Token} {tree : Expression} (isLeaf : Leaf token tree) :
      Derives .primary [token] tree
  | parentheses {tokens : List Token} {tree : Expression} (inside : Derives .sum tokens tree) :
      Derives .primary (.opening :: (tokens ++ [.closing])) tree
  | call {tokens : List Token} {callee : Expression}
      {arguments : List (List Token × Expression)} (front : Derives .call tokens callee)
      (inside : ∀ argument ∈ arguments, Derives .sum argument.1 argument.2) :
      Derives .call
        (tokens ++ .opening :: (separated (arguments.map Prod.fst) ++ [.closing]))
        (.call callee (arguments.map Prod.snd))
  | negative {tokens : List Token} {tree : Expression} (operand : Derives .unary tokens tree) :
      Derives .unary (.minus :: tokens) (.negative tree)
  | binary {phrase : Phrase} {operator : MathOperator} {front behind : List Token}
      {left right : Expression} (isOperator : operator ∈ phrase.operators)
      (first : Derives phrase front left) (second : Derives phrase.inner behind right) :
      Derives phrase (front ++ .operator operator :: behind) (.binary operator left right)
  | inner {phrase : Phrase} {tokens : List Token} {tree : Expression}
      (isLooser : phrase ≠ .primary) (inside : Derives phrase.inner tokens tree) :
      Derives phrase tokens tree

/-! ### A reader -/

def Phrase.operator? (phrase : Phrase) (token : Token) : Option MathOperator :=
  phrase.operators.find? fun operator => Token.operator operator = token

def Phrase.goesOn (phrase : Phrase) (token : Token) : Bool :=
  (phrase.operator? token).isSome || phrase = .call && token = .opening

/-- What is to be read next: a phrase, what may follow its first part, or an argument of a call and
what follows it. -/
inductive Goal where
  | phrase (phrase : Phrase)
  | more (phrase : Phrase) (tree : Expression)
  | arguments (callee : Expression) (done : List Expression)

inductive Reads : Goal → List Token → Expression × List Token → Prop where
  | leaf {token : Token} {rest : List Token} {tree : Expression}
      {result : Expression × List Token} (isLeaf : Leaf token tree)
      (follows : Reads (.more .primary tree) rest result) :
      Reads (.phrase .primary) (token :: rest) result
  | parentheses {rest behind : List Token} {tree : Expression}
      {result : Expression × List Token}
      (inside : Reads (.phrase .sum) rest (tree, .closing :: behind))
      (follows : Reads (.more .primary tree) behind result) :
      Reads (.phrase .primary) (.opening :: rest) result
  | negative {rest behind : List Token} {tree : Expression} {result : Expression × List Token}
      (operand : Reads (.phrase .unary) rest (tree, behind))
      (follows : Reads (.more .unary (.negative tree)) behind result) :
      Reads (.phrase .unary) (.minus :: rest) result
  | inner {phrase : Phrase} {tokens behind : List Token} {tree : Expression}
      {result : Expression × List Token} (isLooser : phrase ≠ .primary)
      (noMinus : phrase = .unary → tokens.head? ≠ some .minus)
      (inside : Reads (.phrase phrase.inner) tokens (tree, behind))
      (follows : Reads (.more phrase tree) behind result) :
      Reads (.phrase phrase) tokens result
  | stop {phrase : Phrase} {rest : List Token} {tree : Expression}
      (stops : ∀ next ∈ rest.head?, phrase.goesOn next = false) :
      Reads (.more phrase tree) rest (tree, rest)
  | operator {phrase : Phrase} {token : Token} {rest behind : List Token}
      {operator : MathOperator} {left right : Expression} {result : Expression × List Token}
      (isOperator : phrase.operator? token = some operator)
      (second : Reads (.phrase phrase.inner) rest (right, behind))
      (follows : Reads (.more phrase (.binary operator left right)) behind result) :
      Reads (.more phrase left) (token :: rest) result
  | nothing {callee : Expression} {rest : List Token} {result : Expression × List Token}
      (follows : Reads (.more .call (.call callee [])) rest result) :
      Reads (.more .call callee) (.opening :: .closing :: rest) result
  | something {callee : Expression} {rest : List Token} {result : Expression × List Token}
      (noClosing : rest.head? ≠ some .closing)
      (inside : Reads (.arguments callee []) rest result) :
      Reads (.more .call callee) (.opening :: rest) result
  | further {callee tree : Expression} {done : List Expression} {tokens behind : List Token}
      {result : Expression × List Token}
      (argument : Reads (.phrase .sum) tokens (tree, .comma :: behind))
      (others : Reads (.arguments callee (done ++ [tree])) behind result) :
      Reads (.arguments callee done) tokens result
  | last {callee tree : Expression} {done : List Expression} {tokens behind : List Token}
      {result : Expression × List Token}
      (argument : Reads (.phrase .sum) tokens (tree, .closing :: behind))
      (follows : Reads (.more .call (.call callee (done ++ [tree]))) behind result) :
      Reads (.arguments callee done) tokens result

private theorem mem_reservedWords (value : Bool) :
    (if value then "true" else "false") ∈ reservedWords := by
  revert value
  decide

private theorem Leaf.unique {token : Token} {first second : Expression} (isFirst : Leaf token first)
    (isSecond : Leaf token second) : first = second := by
  cases isFirst with
  | name isName =>
      cases isSecond with
      | name => rfl
      | boolean isValue => exact absurd (isValue ▸ mem_reservedWords _) isName
  | boolean isValue =>
      cases isSecond with
      | name isName => exact absurd (isValue ▸ mem_reservedWords _) isName
      | boolean isSame =>
          have differ : ∀ value other : Bool, (if value then "true" else "false") =
              (if other then "true" else "false") → value = other := by decide
          exact congrArg _ (differ _ _ (isValue.symm.trans isSame))
  | numeral isValue =>
      cases isSecond with
      | numeral isSame => exact congrArg _ (Option.some.inj (isValue.symm.trans isSame))
  | string =>
      cases isSecond with
      | string => rfl

private theorem Phrase.goesOn_of_operator {phrase : Phrase} {token : Token}
    {operator : MathOperator}
    (isOperator : phrase.operator? token = some operator) : phrase.goesOn token = true := by
  rw [goesOn, isOperator]
  rfl

private theorem Phrase.goesOn_opening : Phrase.call.goesOn .opening = true := by decide

/-- The reader never has a choice. -/
theorem Reads.unique {goal : Goal} {tokens : List Token} {first second : Expression × List Token}
    (isFirst : Reads goal tokens first) (isSecond : Reads goal tokens second) : first = second := by
  induction isFirst generalizing second with
  | leaf isLeaf follows inductionHypothesis =>
      cases isSecond with
      | leaf isSame followsSame =>
          cases isLeaf.unique isSame
          exact inductionHypothesis followsSame
      | parentheses inside followsSame => cases isLeaf
      | inner isLooser => exact absurd rfl isLooser
  | parentheses inside follows insideHypothesis followsHypothesis =>
      cases isSecond with
      | leaf isLeaf followsSame => cases isLeaf
      | parentheses insideSame followsSame =>
          cases insideHypothesis insideSame
          exact followsHypothesis followsSame
      | inner isLooser => exact absurd rfl isLooser
  | negative operand follows operandHypothesis followsHypothesis =>
      cases isSecond with
      | negative operandSame followsSame =>
          cases operandHypothesis operandSame
          exact followsHypothesis followsSame
      | inner isLooser noMinus => exact absurd rfl (noMinus rfl)
  | inner isLooser noMinus inside follows insideHypothesis followsHypothesis =>
      cases isSecond with
      | leaf => exact absurd rfl isLooser
      | parentheses => exact absurd rfl isLooser
      | negative => exact absurd rfl (noMinus rfl)
      | inner isLooserSame noMinusSame insideSame followsSame =>
          cases insideHypothesis insideSame
          exact followsHypothesis followsSame
  | stop stops =>
      -- With a token with which the phrase goes on, the reader does not stop.
      cases isSecond with
      | stop => rfl
      | operator isOperator =>
          exact absurd (Phrase.goesOn_of_operator isOperator) (Bool.eq_false_iff.mp (stops _ rfl))
      | nothing => exact absurd Phrase.goesOn_opening (Bool.eq_false_iff.mp (stops _ rfl))
      | something => exact absurd Phrase.goesOn_opening (Bool.eq_false_iff.mp (stops _ rfl))
  | operator isOperator right follows rightHypothesis followsHypothesis =>
      cases isSecond with
      | stop stops =>
          exact absurd (Phrase.goesOn_of_operator isOperator) (Bool.eq_false_iff.mp (stops _ rfl))
      | operator isSame rightSame followsSame =>
          cases isOperator.symm.trans isSame
          cases rightHypothesis rightSame
          exact followsHypothesis followsSame
      | nothing => cases isOperator
      | something => cases isOperator
  | nothing follows inductionHypothesis =>
      cases isSecond with
      | stop stops => exact absurd Phrase.goesOn_opening (Bool.eq_false_iff.mp (stops _ rfl))
      | operator isOperator => cases isOperator
      | nothing followsSame => exact inductionHypothesis followsSame
      | something noClosing => exact absurd rfl noClosing
  | something noClosing inside inductionHypothesis =>
      cases isSecond with
      | stop stops => exact absurd Phrase.goesOn_opening (Bool.eq_false_iff.mp (stops _ rfl))
      | operator isOperator => cases isOperator
      | nothing => exact absurd rfl noClosing
      | something noClosingSame insideSame => exact inductionHypothesis insideSame
  | further argument others argumentHypothesis othersHypothesis =>
      cases isSecond with
      | further argumentSame othersSame =>
          cases argumentHypothesis argumentSame
          exact othersHypothesis othersSame
      | last argumentSame => cases argumentHypothesis argumentSame
  | last argument follows argumentHypothesis followsHypothesis =>
      cases isSecond with
      | further argumentSame => cases argumentHypothesis argumentSame
      | last argumentSame followsSame =>
          cases argumentHypothesis argumentSame
          exact followsHypothesis followsSame

/-! ### The reader follows the grammar -/

def Phrase.upTo : Phrase → List Phrase
  | primary => [primary]
  | call => [call, primary]
  | unary => [unary, call, primary]
  | product => [product, unary, call, primary]
  | sum => [sum, product, unary, call, primary]

/-- Whether a phrase ends in front of some tokens, and with it the tighter ones at its end. -/
def Stops (phrase : Phrase) (rest : List Token) : Prop :=
  ∀ next ∈ rest.head?, ∀ tighter ∈ phrase.upTo, tighter.goesOn next = false

section Stops

variable {phrase : Phrase} {rest : List Token} {tree : Expression}

theorem Stops.stop (stops : Stops phrase rest) : Reads (.more phrase tree) rest (tree, rest) := by
  have isSelf : phrase ∈ phrase.upTo := by cases phrase <;> decide
  exact .stop fun next isNext => stops next isNext phrase isSelf

theorem Stops.inner (stops : Stops phrase rest) : Stops phrase.inner rest := by
  have isTighter : ∀ tighter ∈ phrase.inner.upTo, tighter ∈ phrase.upTo := by
    cases phrase <;> decide
  exact fun next isNext tighter isInner => stops next isNext tighter (isTighter tighter isInner)

theorem stops_closing (phrase : Phrase) (rest : List Token) : Stops phrase (.closing :: rest) := by
  have isStop : ∀ tighter ∈ phrase.upTo, tighter.goesOn .closing = false := by
    cases phrase <;> decide
  rintro next ⟨⟩
  exact isStop

private theorem stops_comma (phrase : Phrase) (rest : List Token) :
    Stops phrase (.comma :: rest) := by
  have isStop : ∀ tighter ∈ phrase.upTo, tighter.goesOn .comma = false := by
    cases phrase <;> decide
  rintro next ⟨⟩
  exact isStop

private theorem stops_opening (rest : List Token) : Stops .primary (.opening :: rest) := by
  rintro next ⟨⟩
  decide

/-- The operators of a phrase do not go on with the tighter ones. -/
theorem stops_operator {operator : MathOperator} (isOperator : operator ∈ phrase.operators) :
    Stops phrase.inner (.operator operator :: rest) := by
  have isStop : ∀ operator ∈ phrase.operators, ∀ tighter ∈ phrase.inner.upTo,
      tighter.goesOn (.operator operator) = false := by
    cases phrase <;> decide
  rintro next ⟨⟩
  exact isStop operator isOperator

private theorem operator?_operator {operator : MathOperator}
    (isOperator : operator ∈ phrase.operators) :
    phrase.operator? (.operator operator) = some operator := by
  have isFound : ∀ operator ∈ phrase.operators,
      phrase.operator? (.operator operator) = some operator := by
    cases phrase <;> decide
  exact isFound operator isOperator

end Stops

/-- No phrase starts with a closing parenthesis, and tight ones do not start with a minus. -/
theorem Derives.head {phrase : Phrase} {tokens : List Token} {tree : Expression}
    (derivation : Derives phrase tokens tree) : ∃ first rest, tokens = first :: rest ∧
      first ≠ .closing ∧ (phrase = .primary ∨ phrase = .call → first ≠ .minus) := by
  induction derivation with
  | leaf isLeaf =>
      refine ⟨_, [], rfl, ?_, fun _ => ?_⟩ <;> rintro rfl <;> cases isLeaf
  | parentheses inside inductionHypothesis => exact ⟨_, _, rfl, by decide, by decide⟩
  | call front inside frontHypothesis insideHypothesis =>
      obtain ⟨first, rest, rfl, noClosing, noMinus⟩ := frontHypothesis
      exact ⟨first, _, rfl, noClosing, noMinus⟩
  | negative operand inductionHypothesis => exact ⟨_, _, rfl, by decide, by decide⟩
  | binary isOperator left right leftHypothesis rightHypothesis =>
      obtain ⟨first, rest, rfl, noClosing, noMinus⟩ := leftHypothesis
      exact ⟨first, _, rfl, noClosing, noMinus⟩
  | @inner phrase _ _ isLooser inside inductionHypothesis =>
      obtain ⟨first, rest, rfl, noClosing, noMinus⟩ := inductionHypothesis
      refine ⟨first, rest, rfl, noClosing, fun isTight => noMinus ?_⟩
      rcases isTight with rfl | rfl
      · exact Or.inl rfl
      · exact Or.inl rfl

/-- Arguments that are read are read in a row. -/
theorem Reads.row {callee : Expression} {rest : List Token} {result : Expression × List Token}
    (arguments : List (List Token × Expression)) (isSome : arguments ≠ [])
    (read : ∀ argument ∈ arguments, ∀ {rest : List Token} {result : Expression × List Token},
      Stops .product rest → Reads (.more .sum argument.2) rest result →
        Reads (.phrase .sum) (argument.1 ++ rest) result) (done : List Expression)
    (follows : Reads (.more .call (.call callee (done ++ arguments.map Prod.snd))) rest result) :
    Reads (.arguments callee done) (separated (arguments.map Prod.fst) ++ .closing :: rest)
      result := by
  induction arguments generalizing done with
  | nil => exact absurd rfl isSome
  | cons argument others inductionHypothesis =>
      have readFirst := @read argument List.mem_cons_self
      cases others with
      | nil =>
          have read := readFirst (stops_closing _ rest) (stops_closing .sum _).stop
          exact .last (by simpa [separated] using read) follows
      | cons next others =>
          have row := inductionHypothesis (List.cons_ne_nil _ _)
            (fun argument isLater => @read argument (List.mem_cons_of_mem _ isLater))
            (done ++ [argument.2]) (by simpa using follows)
          have read := readFirst
            (stops_comma _ (separated ((next :: others).map Prod.fst) ++ .closing :: rest))
            (stops_comma .sum _).stop
          exact .further (by simpa [separated] using read) row

/-- A phrase is read as what it was derived as, and the reader goes on behind it. -/
theorem Derives.reads {phrase : Phrase} {tokens : List Token} {tree : Expression}
    (derivation : Derives phrase tokens tree) : ∀ {rest : List Token}
      {result : Expression × List Token}, Stops phrase.inner rest →
        Reads (.more phrase tree) rest result → Reads (.phrase phrase) (tokens ++ rest) result := by
  induction derivation with
  | leaf isLeaf => exact fun stops follows => .leaf isLeaf follows
  | parentheses inside inductionHypothesis =>
      intro rest result stops follows
      rw [List.cons_append, List.append_assoc]
      exact .parentheses
        (inductionHypothesis (stops_closing _ _) (stops_closing .sum rest).stop) follows
  | @call tokens callee arguments front inside frontHypothesis insideHypothesis =>
      intro rest result stops follows
      rw [List.append_assoc, List.cons_append, List.append_assoc]
      refine frontHypothesis (stops_opening _) ?_
      by_cases isEmpty : arguments = []
      · subst isEmpty
        exact .nothing follows
      · have noClosing : (separated (arguments.map Prod.fst) ++ Token.closing :: rest).head? ≠
            some .closing := by
          obtain ⟨argument, others, rfl⟩ := List.exists_cons_of_ne_nil isEmpty
          obtain ⟨first, more, argument_eq, noClosing, _⟩ :=
            (inside argument List.mem_cons_self).head
          rw [List.map_cons, separated, argument_eq]
          exact fun isClosing => noClosing (Option.some.inj isClosing)
        exact .something noClosing (.row arguments isEmpty insideHypothesis [] follows)
  | negative operand inductionHypothesis =>
      intro rest result stops follows
      exact .negative (inductionHypothesis stops (.stop fun _ _ => rfl)) follows
  | binary isOperator first second firstHypothesis secondHypothesis =>
      intro rest result stops follows
      rw [List.append_assoc]
      exact firstHypothesis (stops_operator isOperator)
        (.operator (operator?_operator isOperator) (secondHypothesis stops.inner stops.stop)
          follows)
  | @inner phrase tokens tree isLooser inside inductionHypothesis =>
      intro rest result stops follows
      have noMinus : phrase = .unary → (tokens ++ rest).head? ≠ some .minus := by
        rintro rfl
        obtain ⟨first, behind, rfl, _, noMinus⟩ := inside.head
        exact fun isMinus => noMinus (Or.inr rfl) (Option.some.inj isMinus)
      exact .inner isLooser noMinus (inductionHypothesis stops.inner stops.stop) follows

/-- No tokens make two expressions. -/
theorem Derives.unique {tokens : List Token} {first second : Expression}
    (isFirst : Derives .sum tokens first) (isSecond : Derives .sum tokens second) :
    first = second := by
  have stops : Stops .sum [] := fun next isNext => by cases isNext
  have same := (isFirst.reads stops.inner stops.stop).unique
    (isSecond.reads stops.inner stops.stop)
  exact congrArg Prod.fst same

end SprigCompiler.Javascript
