import SprigCompiler.Proofs.Grammar.Basic
import SprigCompiler.Proofs.Number.Written
import SprigCompiler.Proofs.Token.Spelling

/-!
The shapes of parsed trees.

The lexemes of a text say more about a tree than the grammar alone: its names are words and its
numbers are numbers.  A shape says what a tree is made of without the lexemes that it was derived
from.
-/

namespace SprigCompiler

namespace Shape

inductive Leaf : Node → Prop where
  | name {name : String} {place : Location} (isWord : IsWord name) : Leaf (.identifier name place)
  | string (value : String) (place : Location) : Leaf (.string value place)
  | number {value : Binary64} {place : Location} (isNumber : value.isNaN = false) :
      Leaf (.number value place)
  | boolean (value : Bool) (place : Location) : Leaf (.boolean value place)

inductive Value : Node → Prop where
  | leaf {node : Node} (leaf : Leaf node) : Value node
  | call {name : String} {arguments : List Node} {place extent : Location} (isWord : IsWord name)
      (leaves : ∀ argument ∈ arguments, Leaf argument) :
      Value (.application .call (.identifier name place) arguments extent)
  | math {operator : MathOperator} {left right : Node} {place : Location} (first : Value left)
      (second : Value right) : Value (.math operator left right place)

inductive Binding : Node → Prop where
  | binding {name : String} {value : Node} {place between extent : Location} (isWord : IsWord name)
      (isValue : Value value) :
      Binding (.statement .binding (.assignment (.identifier name place) value between) extent)

inductive Line : Node → Prop where
  | type (value : Node) (place : Location) : Line (.statement .type value place)
  | binding {node : Node} (binding : Binding node) : Line node
  | result {value : Node} {place : Location} (isValue : Value value) :
      Line (.statement .result value place)

inductive Header : Node → Prop where
  | name {name : String} {place : Location} (isWord : IsWord name) : Header (.identifier name place)
  | parameters {name : String} {parameters : List Node} {place extent : Location}
      (isWord : IsWord name) (leaves : ∀ parameter ∈ parameters, Leaf parameter) :
      Header (.application .functionParameters (.identifier name place) parameters extent)

inductive Body : Node → Prop where
  | value {node : Node} (isValue : Value node) : Body node
  | block {body : List Node} {place : Location} (lines : ∀ line ∈ body, Line line) :
      Body (.block body place)

inductive Paragraph : Node → Prop where
  | main {name : String} {arguments : List Node} {place extent whole : Location}
      (isWord : IsWord name) (leaves : ∀ argument ∈ arguments, Leaf argument) :
      Paragraph
        (.statement .main (.application .call (.identifier name place) arguments extent) whole)
  | type (value : Node) (place : Location) : Paragraph (.statement .type value place)
  | binding {node : Node} (binding : Binding node) : Paragraph node
  | function {left right : Node} {between extent : Location} (header : Header left)
      (body : Body right) : Paragraph (.statement .function (.assignment left right between) extent)

inductive Program : Node → Prop where
  | program {body : List Node} {place : Location}
      (paragraphs : ∀ paragraph ∈ body, Paragraph paragraph) : Program (.program body place)

end Shape

namespace Decimal

theorem isNaN_ofMagnitude {negative : Bool} {magnitude : Nat}
    (isNumber : magnitude ≤ Binary64.infiniteMagnitude) :
    (Binary64.ofMagnitude negative magnitude).isNaN = false := by
  have isMagnitude := @Binary64.magnitude_ofMagnitude negative magnitude
    (Nat.lt_of_le_of_lt isNumber Binary64.infiniteMagnitude_lt)
  unfold Binary64.isNaN
  rw [isMagnitude]
  exact decide_eq_false (Nat.not_lt.mpr isNumber)

private theorem isWordCharacter_of_toLower {character : Char} (isLetter : character.toLower = 'n') :
    Piece.isWordCharacter character = true := by
  unfold Char.toLower at isLetter
  split at isLetter
  · rename_i isUpper
    have isLetter : character.isUpper = true := decide_eq_true isUpper
    change (character.isUpper || character.isLower || _) = true
    rw [isLetter, Bool.true_or, Bool.true_or]
  · rw [isLetter]
    rfl

private theorem mem_of_mem_splitSign {characters : List Char} {character : Char}
    (isMember : character ∈ (splitSign characters).2) : character ∈ characters := by
  unfold splitSign at isMember
  split at isMember
  · exact List.mem_cons_of_mem _ isMember
  · exact List.mem_cons_of_mem _ isMember
  · exact isMember

private theorem isNaN_of_readDigits? {negative : Bool} {characters : List Char} {value : Binary64}
    (isRead : readDigits? negative characters = some value) : value.isNaN = false := by
  unfold readDigits? at isRead
  generalize splitFraction (characters.dropWhile Char.isDigit) = parts at isRead
  dsimp only at isRead
  split at isRead
  · cases isRead
  · obtain ⟨exponent, _, rfl⟩ := Option.map_eq_some_iff.mp isRead
    obtain ⟨magnitude, isNumber, scaled⟩ := exists_scale
      (digitsValue (characters.takeWhile Char.isDigit ++ parts.1)) (exponent - parts.1.length)
    rw [scaled]
    exact isNaN_ofMagnitude isNumber

private theorem isNaN_of_readWord? {negative : Bool} {characters : List Char} {value : Binary64}
    (isRead : readWord? negative characters = some value)
    (noWord : ∀ character ∈ characters, Piece.isWordCharacter character = false) :
    value.isNaN = false := by
  unfold readWord? at isRead
  dsimp only at isRead
  split at isRead
  · rw [← Option.some.inj isRead]
    exact isNaN_ofMagnitude (Nat.le_refl _)
  · split at isRead
    · -- The word `nan` has letters.
      rename_i isNaN
      have isWord : characters.map Char.toLower = ['n', 'a', 'n'] := by
        rw [← @String.toList_ofList (characters.map Char.toLower), isNaN]
        rfl
      cases characters with
      | nil => cases isWord
      | cons first rest =>
          have isLetter := isWordCharacter_of_toLower (List.cons.inj isWord).1
          rw [noWord first List.mem_cons_self] at isLetter
          cases isLetter
    · cases isRead

/-- Only a word is read as no number at all. -/
theorem isNaN_of_read? {characters : List Char} {value : Binary64}
    (isRead : read? characters = some value)
    (noWord : ∀ character ∈ characters, Piece.isWordCharacter character = false) :
    value.isNaN = false := by
  have noWord := fun character isMember => noWord character (mem_of_mem_splitSign isMember)
  unfold read? at isRead
  generalize splitSign characters = parts at isRead noWord
  rcases Option.or_eq_some_iff.mp isRead with inDigits | ⟨_, inWord⟩
  · exact isNaN_of_readDigits? inDigits
  · exact isNaN_of_readWord? inWord noWord

end Decimal

namespace Grammar

variable {lexemes : List Lexeme} {node : Node} {nodes : List Node}

private theorem Literal.shape {lexeme : Lexeme} (derivation : Literal lexeme node)
    (spelled : lexeme.Spelled) : Shape.Leaf node := by
  cases derivation with
  | string text place => exact .string text place
  | number text value place numeral =>
      exact .number (Decimal.isNaN_of_read? numeral (spelled.2 rfl))
  | boolean text place => exact .boolean _ place

private theorem Atom.shape {lexeme : Lexeme} (derivation : Atom lexeme node)
    (spelled : lexeme.Spelled) :
    Shape.Leaf node := by
  cases derivation with
  | name text place => exact .name (spelled.1 rfl)
  | literal literal => exact literal.shape spelled

private theorem Listed.shape (derivation : Listed lexemes nodes)
    (spelled : ∀ lexeme ∈ lexemes, lexeme.Spelled) : ∀ node ∈ nodes, Shape.Leaf node := by
  induction derivation with
  | last atom =>
      exact List.forall_mem_singleton.mpr (atom.shape (spelled _ List.mem_cons_self))
  | more comma atom rest inductionHypothesis =>
      rw [List.forall_mem_cons, List.forall_mem_cons] at spelled
      exact List.forall_mem_cons.mpr ⟨atom.shape spelled.1, inductionHypothesis spelled.2.2⟩

private theorem shape_of_row (derivations : List.Forall₂ Atom lexemes nodes)
    (spelled : ∀ lexeme ∈ lexemes, lexeme.Spelled) : ∀ node ∈ nodes, Shape.Leaf node := by
  induction derivations with
  | nil => exact fun node isMember => absurd isMember List.not_mem_nil
  | cons atom _ inductionHypothesis =>
      rw [List.forall_mem_cons] at spelled
      exact List.forall_mem_cons.mpr ⟨atom.shape spelled.1, inductionHypothesis spelled.2⟩

private theorem Arguments.shape {form : ApplicationForm} (derivation : Arguments form lexemes nodes)
    (spelled : ∀ lexeme ∈ lexemes, lexeme.Spelled) : ∀ node ∈ nodes, Shape.Leaf node := by
  cases derivation with
  | row first others => exact shape_of_row (.cons first others) spelled
  | empty => exact fun node isMember => absurd isMember List.not_mem_nil
  | listed start stop delimiters listed =>
      rw [List.forall_mem_cons, List.forall_mem_append] at spelled
      exact listed.shape spelled.2.1

private theorem Named.shape (derivation : Named .call lexemes node)
    (spelled : ∀ lexeme ∈ lexemes, lexeme.Spelled) : Shape.Value node := by
  cases derivation with
  | name text place => exact .leaf (.name ((spelled _ List.mem_cons_self).1 rfl))
  | application text place extent arguments =>
      rw [List.forall_mem_cons] at spelled
      exact .call (spelled.1.1 rfl) (arguments.shape spelled.2)

private theorem Named.header (derivation : Named .functionParameters lexemes node)
    (spelled : ∀ lexeme ∈ lexemes, lexeme.Spelled) : Shape.Header node := by
  cases derivation with
  | name text place => exact .name ((spelled _ List.mem_cons_self).1 rfl)
  | application text place extent arguments =>
      rw [List.forall_mem_cons] at spelled
      exact .parameters (spelled.1.1 rfl) (arguments.shape spelled.2)

private theorem Operand.shape (derivation : Operand lexemes node)
    (spelled : ∀ lexeme ∈ lexemes, lexeme.Spelled) : Shape.Value node := by
  cases derivation with
  | named named => exact named.shape spelled
  | number literal => exact .leaf (literal.shape (spelled _ List.mem_cons_self))

private theorem Chain.shape (derivation : Chain lexemes node)
    (spelled : ∀ lexeme ∈ lexemes, lexeme.Spelled) : Shape.Value node := by
  induction derivation with
  | last operand => exact operand.shape spelled
  | link text place operand arithmetic chain inductionHypothesis =>
      rw [List.forall_mem_append, List.forall_mem_cons] at spelled
      exact .math (operand.shape spelled.1) (inductionHypothesis spelled.2.2)

private theorem Value.shape (derivation : Value lexemes node)
    (spelled : ∀ lexeme ∈ lexemes, lexeme.Spelled) : Shape.Value node := by
  cases derivation with
  | term term =>
      cases term with
      | named named => exact named.shape spelled
      | literal literal => exact .leaf (literal.shape (spelled _ List.mem_cons_self))
  | chain text place operand arithmetic chain =>
      rw [List.forall_mem_append, List.forall_mem_cons] at spelled
      exact .math (operand.shape spelled.1) (chain.shape spelled.2.2)

private theorem LetDeclaration.shape (derivation : LetDeclaration lexemes node)
    (spelled : ∀ lexeme ∈ lexemes, lexeme.Spelled) : Shape.Binding node := by
  cases derivation with
  | declare text equals place extent declared body =>
      rw [List.forall_mem_cons, List.forall_mem_append, List.forall_mem_cons] at spelled
      cases declared with
      | name name place =>
          exact .binding ((spelled.2.1 _ List.mem_cons_self).1 rfl) (body.shape spelled.2.2.2)

private theorem Inner.shape (derivation : Inner lexemes node)
    (spelled : ∀ lexeme ∈ lexemes, lexeme.Spelled) : Shape.Line node := by
  cases derivation with
  | type declaration =>
      cases declaration
      exact .type _ _
  | binding declaration => exact .binding (LetDeclaration.shape declaration spelled)
  | result result =>
      cases result with
      | value text place value =>
          rw [List.forall_mem_cons] at spelled
          exact .result (value.shape spelled.2)

/-- Where the items of a sequence have a shape, all of its nodes do. -/
theorem Sequence.shape {Item : List Lexeme → Node → Prop} {Shaped : Node → Prop}
    (shape : ∀ {lexemes : List Lexeme} {node : Node}, Item lexemes node →
      (∀ lexeme ∈ lexemes, lexeme.Spelled) → Shaped node)
    (derivation : Sequence Item lexemes nodes)
    (spelled : ∀ lexeme ∈ lexemes, lexeme.Spelled) : ∀ node ∈ nodes, Shaped node := by
  induction derivation with
  | nil => exact fun node isMember => absurd isMember List.not_mem_nil
  | cons item items inductionHypothesis =>
      rw [List.forall_mem_append] at spelled
      exact List.forall_mem_cons.mpr ⟨shape item spelled.1, inductionHypothesis spelled.2⟩

private theorem FunctionBody.shape (derivation : FunctionBody lexemes node)
    (spelled : ∀ lexeme ∈ lexemes, lexeme.Spelled) : Shape.Body node := by
  cases derivation with
  | value value => exact .value (value.shape spelled)
  | block block =>
      cases block with
      | braces start stop place items =>
          rw [List.forall_mem_cons, List.forall_mem_append] at spelled
          exact .block (items.shape Inner.shape spelled.2.1)

private theorem Statement.shape (derivation : Statement lexemes node)
    (spelled : ∀ lexeme ∈ lexemes, lexeme.Spelled) : Shape.Paragraph node := by
  cases derivation with
  | main main =>
      cases main with
      | name text name place extent whole =>
          rw [List.forall_mem_cons, List.forall_mem_singleton] at spelled
          exact .main (spelled.2.1 rfl) fun node isMember => absurd isMember List.not_mem_nil
      | application text name place extent whole arguments =>
          rw [List.forall_mem_cons, List.forall_mem_cons] at spelled
          exact .main (spelled.2.1.1 rfl) (arguments.shape spelled.2.2)
  | type declaration =>
      cases declaration
      exact .type _ _
  | binding declaration => exact .binding (LetDeclaration.shape declaration spelled)
  | function isFun declaration =>
      cases declaration with
      | declare text equals place extent declared body =>
          rw [List.forall_mem_cons, List.forall_mem_append, List.forall_mem_cons] at spelled
          exact .function (declared.header spelled.2.1) (body.shape spelled.2.2.2)

theorem Program.shape (derivation : Program lexemes node)
    (spelled : ∀ lexeme ∈ lexemes, lexeme.Spelled) : Shape.Program node := by
  cases derivation with
  | statements place items oneMain => exact .program (items.shape Statement.shape spelled)

end Grammar

end SprigCompiler
