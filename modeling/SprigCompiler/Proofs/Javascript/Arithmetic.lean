import SprigCompiler.Proofs.Javascript.Grammar
import SprigCompiler.Proofs.Javascript.Pages
import SprigCompiler.Proofs.Number.Written
import SprigCompiler.Proofs.Tree.Relocation

/-!
Arithmetic keeps its grouping.

The text of arithmetic is read by the grammar of JavaScript as the tree that it was written from,
and as no other.  Each operand is written so that it is a phrase as tight as a signed number, which
stands on both sides of every operator; the parentheses around nested arithmetic see to that.
-/

namespace SprigCompiler.Javascript

theorem separates_opening : Separates ['('] [.opening] := separates_sign fun _ => rfl

theorem separates_closing : Separates [')'] [.closing] := separates_sign fun _ => rfl

private theorem separates_comma : Separates [',', ' '] [.comma] :=
  @Separates.trans [','] [' '] [.comma] [] (separates_sign fun _ => rfl) separates_blank

private theorem separates_operator (operator : MathOperator) :
    Separates (' ' :: (operator.sign.toList ++ [' '])) [.operator operator] := by
  intro more
  obtain ⟨sign, isSign, isToken⟩ : ∃ sign, operator.sign.toList = [sign] ∧
      token? sign (' ' :: more) = some (some (.operator operator), ' ' :: more) := by
    cases operator <;> exact ⟨_, rfl, rfl⟩
  have isOperator := tokens?_cons isToken
  rw [tokens?_blank] at isOperator
  rw [isSign]
  exact tokens?_blank.trans isOperator

theorem lexes_name {name : String} (isSome : name.toList ≠ [])
    (isWord : ∀ part ∈ name.toList, Piece.isWordCharacter part) :
    Lexes name.toList [.word name.toList] := by
  obtain ⟨first, rest, name_eq⟩ := List.exists_cons_of_ne_nil isSome
  have starts : ∀ part ∈ name.toList, startsWord part := by
    intro part isPart
    rw [startsWord, Bool.or_eq_true]
    exact Or.inl (isWord part isPart)
  rw [name_eq] at starts ⊢
  refine lexes_word (starts first List.mem_cons_self) fun part isPart => ?_
  rw [isWordPart, starts part (List.mem_cons_of_mem _ isPart), Bool.true_or]

def SingleSigns (tokens : List Token) : Prop :=
  .sign ['+', '+'] ∉ tokens ∧ .sign ['-', '-'] ∉ tokens

theorem SingleSigns.append {front behind : List Token} (first : SingleSigns front)
    (second : SingleSigns behind) : SingleSigns (front ++ behind) :=
  ⟨List.not_mem_append first.1 second.1, List.not_mem_append first.2 second.2⟩

theorem SingleSigns.cons {token : Token} {tokens : List Token}
    (isSingle : .sign ['+', '+'] ≠ token ∧ .sign ['-', '-'] ≠ token) (others : SingleSigns tokens) :
    SingleSigns (token :: tokens) :=
  ⟨List.not_mem_cons_of_ne_of_not_mem isSingle.1 others.1,
    List.not_mem_cons_of_ne_of_not_mem isSingle.2 others.2⟩

theorem singleSigns_nil : SingleSigns [] := ⟨List.not_mem_nil, List.not_mem_nil⟩

/-- Whether a text is read as a phrase that makes an expression, without a token of two signs. -/
def Spells (phrase : Phrase) (text : String) (tree : Expression) : Prop :=
  ∃ tokens, Lexes text.toList tokens ∧ Derives phrase tokens tree ∧ SingleSigns tokens

namespace Spells

variable {phrase : Phrase} {text : String} {tree : Expression}

theorem inner (isLooser : phrase ≠ .primary) (written : Spells phrase.inner text tree) :
    Spells phrase text tree := by
  obtain ⟨tokens, lexes, derivation, single⟩ := written
  exact ⟨tokens, lexes, .inner isLooser derivation, single⟩

theorem unary_of_primary (written : Spells .primary text tree) : Spells .unary text tree :=
  .inner (by decide) (@inner .call text tree (by decide) written)

theorem product_of_unary (written : Spells .unary text tree) : Spells .product text tree :=
  .inner (by decide) written

theorem sum_of_unary (written : Spells .unary text tree) : Spells .sum text tree :=
  .inner (by decide) written.product_of_unary

private theorem parentheses (written : Spells .sum text tree) :
    Spells .primary ("(" ++ text ++ ")") tree := by
  obtain ⟨tokens, lexes, derivation, single⟩ := written
  refine ⟨.opening :: (tokens ++ [.closing]), ?_, .parentheses derivation,
    .cons (by decide) (single.append (.cons (by decide) singleSigns_nil))⟩
  have breaks : Breaks [')'] := breaks_cons rfl []
  have lexes := separates_opening.append (lexes.append breaks separates_closing.lexes)
  simpa using lexes

private theorem binary {operator : MathOperator} {other : String} {right : Expression}
    (isOperator : operator ∈ phrase.operators) (first : Spells phrase text tree)
    (second : Spells phrase.inner other right) :
    Spells phrase (text ++ " " ++ operator.sign ++ " " ++ other)
      (.binary operator tree right) := by
  obtain ⟨front, lexesFront, derivationFront, singleFront⟩ := first
  obtain ⟨behind, lexesBehind, derivationBehind, singleBehind⟩ := second
  have isSingle : .sign ['+', '+'] ≠ Token.operator operator ∧
      .sign ['-', '-'] ≠ Token.operator operator := by
    cases operator <;> decide
  refine ⟨front ++ .operator operator :: behind, ?_,
    .binary isOperator derivationFront derivationBehind,
    singleFront.append (.cons isSingle singleBehind)⟩
  have lexes := lexesFront.append (breaks_cons (show isNumeralPart ' ' = false from rfl) _)
    ((separates_operator operator).append lexesBehind)
  simpa using lexes

theorem name (isName : text ∉ reservedWords) (isSome : text.toList ≠ [])
    (isWord : ∀ part ∈ text.toList, Piece.isWordCharacter part) :
    Spells .primary text (.name text.toList) :=
  ⟨[.word text.toList], lexes_name isSome isWord,
    .leaf (.name (String.ofList_toList.symm ▸ isName)),
    .cons ⟨Token.noConfusion, Token.noConfusion⟩ singleSigns_nil⟩

theorem boolean (value : Bool) :
    Spells .primary (if value then "true" else "false") (.boolean value) := by
  have isLeaf := @Leaf.boolean (if value then "true" else "false").toList value
    String.ofList_toList
  refine ⟨[.word (if value then "true" else "false").toList], ?_, .leaf isLeaf,
    .cons ⟨Token.noConfusion, Token.noConfusion⟩ singleSigns_nil⟩
  cases value <;> exact lexes_word rfl (List.all_eq_true.mp rfl)

/-- An operation whose sides are tight enough to stand on both sides of every operator. -/
theorem operation {other : String} {right : Expression} (operator : MathOperator)
    (first : Spells .unary text tree) (second : Spells .unary other right) :
    Spells .sum (text ++ " " ++ operator.sign ++ " " ++ other) (.binary operator tree right) := by
  cases operator with
  | add | sub => exact .binary (by decide) first.sum_of_unary second.product_of_unary
  | mul | div =>
      refine .inner (by decide) ?_
      exact .binary (by decide) first.product_of_unary second

end Spells

def rowTokens (isFirst : Bool) (rows : List (List Token)) : List Token :=
  if isFirst then separated rows else rows.flatMap (Token.comma :: ·)

def rowText (isFirst : Bool) (text others : String) : String :=
  (if isFirst then "" else ", ") ++ text ++ others

/-- Whether a text has the tokens of arguments, and behind an argument breaks it off. -/
def LexesRow (isFirst : Bool) (text : String) (rows : List (List Token)) : Prop :=
  Lexes text.toList (rowTokens isFirst rows) ∧ (isFirst = false → Breaks text.toList)

theorem lexesRow_nil (isFirst : Bool) : LexesRow isFirst "" [] := by
  cases isFirst <;> exact ⟨.nil, by simp [Breaks]⟩

theorem LexesRow.cons {text others : String} {tokens : List Token} {rows : List (List Token)}
    (first : Lexes text.toList tokens) (behind : LexesRow false others rows) (isFirst : Bool) :
    LexesRow isFirst (rowText isFirst text others) (tokens :: rows) := by
  have lexes := first.append (behind.2 rfl) behind.1
  cases isFirst with
  | true => exact ⟨by simpa [rowText, rowTokens, separated] using lexes, by simp⟩
  | false =>
      have lexesBehind := separates_comma.append lexes
      refine ⟨by simpa [rowText, rowTokens] using lexesBehind, fun _ => ?_⟩
      simpa [rowText] using breaks_cons (show isNumeralPart ',' = false from rfl) _

def SpellsRow (isFirst : Bool) (text : String) (trees : List Expression) : Prop :=
  ∃ pairs : List (List Token × Expression), pairs.map Prod.snd = trees ∧
    (∀ pair ∈ pairs, Derives .sum pair.1 pair.2) ∧ LexesRow isFirst text (pairs.map Prod.fst) ∧
    SingleSigns (rowTokens isFirst (pairs.map Prod.fst))

theorem spellsRow_nil (isFirst : Bool) : SpellsRow isFirst "" [] := by
  refine ⟨[], rfl, by simp, lexesRow_nil isFirst, ?_⟩
  cases isFirst <;> exact singleSigns_nil

theorem SpellsRow.cons {text others : String} {tree : Expression} {trees : List Expression}
    (first : Spells .sum text tree) (behind : SpellsRow false others trees) (isFirst : Bool) :
    SpellsRow isFirst (rowText isFirst text others) (tree :: trees) := by
  obtain ⟨tokens, lexes, derivation, single⟩ := first
  obtain ⟨pairs, rfl, derivations, lexesOthers, singleOthers⟩ := behind
  have singleRow := single.append singleOthers
  refine ⟨(tokens, tree) :: pairs, rfl, List.forall_mem_cons.mpr ⟨derivation, derivations⟩,
    .cons lexes lexesOthers isFirst, ?_⟩
  cases isFirst with
  | true => exact singleRow
  | false => exact .cons (by decide) singleRow

theorem Spells.call {text row : String} {tree : Expression} {trees : List Expression}
    (callee : Spells .call text tree) (arguments : SpellsRow true row trees) :
    Spells .call (text ++ "(" ++ row ++ ")") (.call tree trees) := by
  obtain ⟨tokens, lexes, derivation, single⟩ := callee
  obtain ⟨pairs, rfl, derivations, ⟨lexesRow, _⟩, singleRow⟩ := arguments
  refine ⟨tokens ++ .opening :: (separated (pairs.map Prod.fst) ++ [.closing]), ?_,
    .call derivation derivations, single.append (.cons (by decide)
      (singleRow.append (.cons (by decide) singleSigns_nil)))⟩
  have closes : Breaks [')'] := breaks_cons rfl []
  have lexesInside := separates_opening.append (lexesRow.append closes separates_closing.lexes)
  have lexesCall := lexes.append (breaks_cons (show isNumeralPart '(' = false from rfl) _)
    lexesInside
  simpa [rowTokens] using lexesCall

/-- The expression of a number: a minus in front of its magnitude if it is negative. -/
def Expression.ofNumber (value : Binary64) : Expression :=
  if value.isNegative then .negative (.number (.ofMagnitude false value.magnitude))
  else .number value

theorem Spells.number {value : Binary64} (isNumber : value.isNaN = false)
    (isFinite : value.isInfinite = false) :
    Spells .unary (Decimal.write "Infinity" value) (.ofNumber value) := by
  obtain ⟨numeral, isWritten, isRead⟩ := Decimal.exists_write "Infinity" isNumber isFinite
  have isLeaf := Leaf.numeral (isRead false)
  have same := value.ofMagnitude_magnitude
  have unary : Derives .unary [.numeral numeral.text]
      (.number (.ofMagnitude false value.magnitude)) :=
    .inner (by decide) (.inner (by decide) (.leaf isLeaf))
  have single : SingleSigns [.numeral numeral.text] :=
    .cons ⟨Token.noConfusion, Token.noConfusion⟩ singleSigns_nil
  rw [isWritten]
  unfold Expression.ofNumber
  cases isNegative : value.isNegative with
  | true =>
      refine ⟨[.minus, .numeral numeral.text], ?_, .negative unary, .cons (by decide) single⟩
      rw [String.toList_ofList]
      exact lexes_minus numeral
  | false =>
      rw [isNegative] at same
      rw [same] at unary
      refine ⟨[.numeral numeral.text], ?_, unary, single⟩
      rw [String.toList_ofList]
      exact lexes_numeral numeral

mutual
def expression? : Node → Option Expression
  | .identifier name _ => some (.name name.toList)
  | .number value _ => some (.ofNumber value)
  | .boolean value _ => some (.boolean value)
  | .application .call head arguments _ => do
      return .call (← expression? head) (← expressions? arguments)
  | .math operator left right _ => do
      return .binary operator (← expression? left) (← expression? right)
  | _ => none

def expressions? : List Node → Option (List Expression)
  | [] => some []
  | node :: rest => do return (← expression? node) :: (← expressions? rest)
end

/-- Arithmetic over names that are not reserved, finite numbers, booleans and calls, in which every
node was allowed. -/
inductive Arithmetic : Node → Prop where
  | identifier {name : String} {place : Location} (isSome : name.toList ≠ [])
      (isWord : ∀ part ∈ name.toList, Piece.isWordCharacter part) (isName : name ∉ reservedWords) :
      Arithmetic (.identifier name place)
  | number {value : Binary64} {place : Location} (isNumber : value.isNaN = false)
      (isFinite : value.isInfinite = false) : Arithmetic (.number value place)
  | boolean {value : Bool} {place : Location} : Arithmetic (.boolean value place)
  | call {head : Node} {arguments : List Node} {place : Location} (isHead : Arithmetic head)
      (areArguments : ∀ argument ∈ arguments, Arithmetic argument)
      (allowed : (Node.application .call head arguments place).checked =
        .ok (.application .call head arguments place)) :
      Arithmetic (.application .call head arguments place)
  | math {operator : MathOperator} {left right : Node} {place : Location}
      (isLeft : Arithmetic left) (isRight : Arithmetic right)
      (allowed : (Node.math operator left right place).checked =
        .ok (.math operator left right place)) :
      Arithmetic (.math operator left right place)

def phraseOf (node : Node) : Phrase := if node.isMath then .sum else .unary

/-- Arithmetic as an operand: in parentheses if it is one operation. -/
theorem operand_written {node : Node} {text : String} {tree : Expression}
    (written : Spells (phraseOf node) text tree) :
    Spells .unary (Node.inParentheses node.isMath text) tree := by
  unfold phraseOf at written
  unfold Node.inParentheses
  cases isMath : node.isMath with
  | true =>
      rw [isMath] at written
      exact .unary_of_primary (.parentheses written)
  | false =>
      rw [isMath] at written
      exact written

def Keeps (phrase : Phrase) (depth : Nat) (node : Node) : Prop :=
  ∃ text tree, node.text? depth = some text ∧ expression? node = some tree ∧
    Spells phrase text tree

private theorem arguments_written {depth : Nat} {arguments : List Node}
    (each : ∀ argument ∈ arguments, Keeps .sum depth argument) (isFirst : Bool) :
    ∃ text trees, Node.arguments? depth isFirst arguments = some text ∧
      expressions? arguments = some trees ∧ SpellsRow isFirst text trees := by
  induction arguments generalizing isFirst with
  | nil => exact ⟨"", [], rfl, rfl, spellsRow_nil isFirst⟩
  | cons argument rest inductionHypothesis =>
      obtain ⟨⟨text, tree, isText, isTree, written⟩, laterEach⟩ := List.forall_mem_cons.mp each
      obtain ⟨others, trees, areOthers, areTrees, writtenOthers⟩ :=
        inductionHypothesis laterEach false
      refine ⟨_, tree :: trees, ?_, ?_, .cons written writtenOthers isFirst⟩
      · simp [Node.arguments?, isText, areOthers, rowText]
      · simp [expressions?, isTree, areTrees]

private theorem firstFault?_of_checked {node other : Node} (checked : node.checked = .ok other) :
    node.firstFault? = none := by
  unfold Node.checked at checked
  split at checked
  · assumption
  · cases checked

/-- Only a name is called. -/
theorem Arithmetic.callee {head : Node} {arguments : List Node} {place : Location}
    (arithmetic : Arithmetic head)
    (allowed : (Node.application .call head arguments place).checked =
      .ok (.application .call head arguments place)) (depth : Nat) : Keeps .call depth head := by
  have isAllowed := firstFault?_of_checked allowed
  unfold Node.firstFault? at isAllowed
  rw [Option.or_eq_none_iff, Node.fault?_eq_none_iff] at isAllowed
  have isIdentifier : head.kind = .identifier := List.mem_singleton.mp isAllowed.1
  cases arithmetic with
  | @identifier name place isSome isWord isName =>
      exact ⟨name, .name name.toList, rfl, rfl, .inner (by decide) (.name isName isSome isWord)⟩
  | number => cases isIdentifier
  | boolean => cases isIdentifier
  | call => cases isIdentifier
  | math => cases isIdentifier

theorem Keeps.sum {depth : Nat} {node : Node} (keeps : Keeps (phraseOf node) depth node) :
    Keeps .sum depth node := by
  obtain ⟨text, tree, isText, isTree, written⟩ := keeps
  refine ⟨text, tree, isText, isTree, ?_⟩
  unfold phraseOf at written
  split at written
  · exact written
  · exact .sum_of_unary written

private theorem Keeps.call {depth : Nat} {head : Node} {arguments : List Node} {place : Location}
    (callee : Keeps .call depth head) (each : ∀ argument ∈ arguments, Keeps .sum depth argument) :
    Keeps .call depth (.application .call head arguments place) := by
  obtain ⟨text, tree, isText, isTree, written⟩ := callee
  obtain ⟨row, trees, isRow, areTrees, writtenRow⟩ := arguments_written each true
  refine ⟨_, .call tree trees, ?_, ?_, written.call writtenRow⟩
  · simp [Node.text?, ApplicationForm.lead?, isText, isRow]
  · simp [expression?, isTree, areTrees]

private theorem Keeps.math {depth : Nat} {operator : MathOperator} {left right : Node}
    {place : Location} (first : Keeps (phraseOf left) depth left)
    (second : Keeps (phraseOf right) depth right) :
    Keeps .sum depth (.math operator left right place) := by
  obtain ⟨first, firstTree, isFirst, isFirstTree, writtenFirst⟩ := first
  obtain ⟨second, secondTree, isSecond, isSecondTree, writtenSecond⟩ := second
  refine ⟨_, .binary operator firstTree secondTree, ?_, ?_,
    .operation operator (operand_written writtenFirst) (operand_written writtenSecond)⟩
  · simp [Node.text?, isFirst, isSecond]
  · simp [expression?, isFirstTree, isSecondTree]

/-- Arithmetic has a text that is read as its expression. -/
theorem Arithmetic.keeps {node : Node} (arithmetic : Arithmetic node) (depth : Nat) :
    Keeps (phraseOf node) depth node := by
  induction arithmetic with
  | @identifier name place isSome isWord isName =>
      exact ⟨name, .name name.toList, rfl, rfl, .unary_of_primary (.name isName isSome isWord)⟩
  | @number value place isNumber isFinite =>
      exact ⟨_, .ofNumber value, rfl, rfl, .number isNumber isFinite⟩
  | @boolean value place =>
      exact ⟨_, .boolean value, rfl, rfl, .unary_of_primary (.boolean value)⟩
  | call isHead areArguments allowed headHypothesis argumentHypothesis =>
      obtain ⟨text, tree, isText, isTree, written⟩ := Keeps.call (isHead.callee allowed depth)
        fun argument isArgument => (argumentHypothesis argument isArgument).sum
      exact ⟨text, tree, isText, isTree, @Spells.inner .unary text tree (by decide) written⟩
  | math isLeft isRight allowed leftHypothesis rightHypothesis =>
      exact .math leftHypothesis rightHypothesis

/-- Arithmetic is read as its own expression and as no other. -/
theorem Arithmetic.reads_back {node : Node} (arithmetic : Arithmetic node) :
    ∃ text tokens tree, node.javascript? = some text ∧ tokens? text.toList = some tokens ∧
      .sign ['+', '+'] ∉ tokens ∧ .sign ['-', '-'] ∉ tokens ∧ expression? node = some tree ∧
      ∀ expression, Derives .sum tokens expression ↔ expression = tree := by
  obtain ⟨text, tree, isText, isTree, tokens, lexes, derivation, single⟩ :=
    (arithmetic.keeps 0).sum
  refine ⟨text, tokens, tree, ?_, lexes.tokens?_eq, single.1, single.2, isTree,
    fun expression => ?_⟩
  · rw [Node.javascript?_eq, isText]
  · constructor
    · exact fun other => other.unique derivation
    · rintro rfl
      exact derivation

/-- A difference as the left factor of a product, with a minus zero among its arguments. -/
theorem Arithmetic.reads_back_product :
    let place : Location := ⟨1, 0, 0, 0⟩
    let zero : Node := .number ⟨0x8000000000000000⟩ place
    let called : Node :=
      .application .call (.identifier "f" place) [zero, .boolean true place] place
    let difference : Node := .math .sub (.identifier "a" place) called place
    let product : Node := .math .mul difference (.number ⟨0xC004000000000000⟩ place) place
    product.javascript? = some "(a - f(-0, true)) * -2.5" ∧
    ∃ text tokens tree, product.javascript? = some text ∧ tokens? text.toList = some tokens ∧
      .sign ['+', '+'] ∉ tokens ∧ .sign ['-', '-'] ∉ tokens ∧ expression? product = some tree ∧
      ∀ expression, Derives .sum tokens expression ↔ expression = tree := by
  intro place zero called difference product
  have isZero : Arithmetic zero := .number (by decide) (by decide)
  have isTrue : Arithmetic (.boolean true place) := .boolean
  have isCalled : Arithmetic called := by
    refine .call (.identifier (by decide) (List.all_eq_true.mp rfl) (by decide +kernel)) ?_ rfl
    intro argument isArgument
    rcases List.mem_pair.mp isArgument with rfl | rfl
    · exact isZero
    · exact isTrue
  have isDifference : Arithmetic difference :=
    .math (.identifier (by decide) (List.all_eq_true.mp rfl) (by decide +kernel)) isCalled rfl
  have isProduct : Arithmetic product :=
    .math isDifference (.number (by decide) (by decide)) rfl
  exact ⟨by decide +kernel, isProduct.reads_back⟩

end SprigCompiler.Javascript
