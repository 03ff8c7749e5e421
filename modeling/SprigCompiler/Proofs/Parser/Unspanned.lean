import SprigCompiler.Proofs.Parser.Lookahead
import SprigCompiler.Proofs.Tree.Unspanned

/-!
Parsing without bytes.

Which bytes the tokens cover makes no difference to the parser.  On tokens that have lost their
bytes, and for a text that ends at the same position, each step does what it does on the tokens
themselves, and its result has lost the bytes.
-/

namespace SprigCompiler

open Spanned (unspanned)

def Parser.unspanned (source : Source) (parser : Parser) : Parser :=
  ⟨source, Spanned.unspanned parser.cursor, Spanned.unspanned parser.entryPoint⟩

namespace Parse

variable {Result First Second : Type} [Spanned Result] [Spanned First] [Spanned Second]
  {source : Source}

/-- Whether another step does without bytes, for a text that ends at the same position, what a step
does. -/
def Unspans (source : Source) (step other : Parse Result) : Prop :=
  ∀ parser : Parser, parser.source.endPosition = source.endPosition →
    (step parser).2.source.endPosition = source.endPosition ∧
      other (parser.unspanned source) =
        (unspanned (step parser).1, (step parser).2.unspanned source)

namespace Unspans

protected theorem bind {step other : Parse First} {rest more : First → Parse Second}
    (first : Unspans source step other)
    (second : ∀ result, Unspans source (rest result) (more (unspanned result))) :
    Unspans source (step >>= rest) (other >>= more) := by
  intro parser ends
  obtain ⟨endsBehind, same⟩ := first parser ends
  cases ran : step parser with
  | mk outcome behind =>
      rw [ran] at endsBehind same
      cases outcome with
      | error error =>
          rw [bind_of_error ran, bind_of_error same]
          exact ⟨endsBehind, rfl⟩
      | ok result =>
          rw [bind_of_ok ran, bind_of_ok same]
          exact second result behind endsBehind

theorem still {step other : Parse Result} {outcome : Except ParseError Result}
    (stays : ∀ parser, step parser = (outcome, parser))
    (otherStays : ∀ parser, other parser = (unspanned outcome, parser)) :
    Unspans source step other := by
  intro parser ends
  rw [stays]
  exact ⟨ends, otherStays _⟩

theorem view {look otherLook : Parser → Result}
    (same : ∀ parser : Parser, otherLook (parser.unspanned source) = unspanned (look parser)) :
    Unspans source (fun parser => (.ok (look parser), parser))
      (fun parser => (.ok (otherLook parser), parser)) := by
  intro parser ends
  exact ⟨ends, congrArg (fun seen => (Except.ok seen, parser.unspanned source)) (same parser)⟩

protected theorem pure (result : Result) :
    Unspans source (pure result : Parse Result) (pure (unspanned result)) :=
  still (fun _ => rfl) (fun _ => rfl)

protected theorem fail (error : ParseError) :
    Unspans source (fail error : Parse Result) (fail (unspanned error)) :=
  still (fun _ => rfl) (fun _ => rfl)

protected theorem unexpected (token : Token) :
    Unspans source (unexpected token : Parse Result) (unexpected (unspanned token)) :=
  .fail (.unexpected token)

protected theorem unexpectedEnd : Unspans source (unexpectedEnd : Parse Result) unexpectedEnd := by
  -- This step looks at the text and not only at its tokens, hence the texts have to end alike.
  intro parser ends
  refine ⟨ends, ?_⟩
  change (Except.error (ParseError.unexpectedEnd source.endPosition), _) = _
  rw [← ends]
  rfl

protected theorem build (node : Node) :
    Unspans source (build node) (build (unspanned node)) := by
  refine still (build_eq_checked node) fun parser => ?_
  rw [build_eq_checked, Spanned.checked_unspanned]

protected theorem mapError {step other : Parse Result}
    {change otherChange : ParseError → ParseError} (unspans : Unspans source step other)
    (same : ∀ error, otherChange (unspanned error) = unspanned (change error)) :
    Unspans source (step.mapError change) (other.mapError otherChange) := by
  intro parser ends
  obtain ⟨endsBehind, ran⟩ := unspans parser ends
  unfold mapError
  rw [ran]
  cases first : step parser with
  | mk outcome behind =>
      rw [first] at endsBehind
      cases outcome with
      | ok result => exact ⟨endsBehind, rfl⟩
      | error error =>
          refine ⟨endsBehind, ?_⟩
          change (Except.error (otherChange (unspanned error)), _) = _
          rw [same]
          rfl

theorem peek_unspanned (cursor : Cursor) : (unspanned cursor).peek = unspanned cursor.peek :=
  Spanned.getElem?_unspanned cursor.tokens cursor.consumed

protected theorem advance : Unspans source advance advance := by
  intro parser ends
  have peeked := peek_unspanned parser.cursor
  unfold advance Cursor.advance Parser.unspanned
  rw [peeked]
  cases parser.cursor.peek <;> exact ⟨ends, rfl⟩

protected theorem retreat : Unspans source retreat retreat := fun _ ends => ⟨ends, rfl⟩

protected theorem next : Unspans source next next := by
  refine Unspans.advance.bind fun found => ?_
  cases found with
  | none => exact .unexpectedEnd
  | some token => exact .pure token

protected theorem takeIf {condition : Token → Bool}
    (same : ∀ token, condition (unspanned token) = condition token) :
    Unspans source (takeIf condition) (takeIf condition) := by
  refine Unspans.advance.bind fun found => ?_
  cases found with
  | none => exact .pure none
  | some token =>
      change Unspans source
        (if condition token then pure (some token) else retreat >>= fun _ => pure none)
        (if condition (unspanned token) then pure (some (unspanned token))
          else retreat >>= fun _ => pure none)
      rw [same]
      split
      · exact .pure (some token)
      · exact Unspans.retreat.bind fun _ => .pure none

protected theorem peekKind : Unspans source peekKind peekKind := by
  refine view fun parser => ?_
  change (unspanned parser.cursor).peek.map Token.kind = _
  rw [peek_unspanned]
  cases parser.cursor.peek <;> rfl

protected theorem ahead : Unspans source ahead ahead := by
  refine view fun parser => ?_
  change (parser.cursor.tokens.map unspanned).size - parser.cursor.consumed = _
  rw [Array.size_map]
  rfl

protected theorem takeOperator : Unspans source takeOperator takeOperator := by
  refine (Unspans.takeIf fun _ => rfl).bind fun found => ?_
  have same : unspanned (found.bind (·.kind.operator?)) =
      (unspanned found).bind (·.kind.operator?) := by
    cases found with
    | none => rfl
    | some token =>
        change unspanned token.kind.operator? = token.kind.operator?
        cases token.kind.operator? <;> rfl
  rw [← same]
  exact .pure _

protected theorem literal (token : Token) :
    Unspans source (literal token) (literal (unspanned token)) := by
  unfold literal
  rw [Spanned.kind_unspanned]
  split
  · exact .pure (Node.string token.text token.location)
  · rw [Spanned.text_unspanned]
    cases Decimal.read? token.text.toList with
    | some value => exact .pure (Node.number value token.location)
    | none => exact .unexpected token
  · exact .pure (Node.boolean (token.text == "true") token.location)
  · exact .unexpected token

protected theorem atom (token : Token) :
    Unspans source (atom token) (atom (unspanned token)) := by
  unfold atom
  rw [Spanned.kind_unspanned]
  split
  · exact .pure (Node.identifier token.text token.location)
  · exact .literal token

protected theorem argumentRow (count : Nat) :
    Unspans source (argumentRow count) (argumentRow count) := by
  induction count with
  | zero => exact .pure ([] : List Node)
  | succ count inductionHypothesis =>
      refine (Unspans.takeIf fun _ => rfl).bind fun found => ?_
      cases found with
      | none => exact .pure ([] : List Node)
      | some token =>
          refine (Unspans.atom token).bind fun argument => ?_
          exact inductionHypothesis.bind fun rest => .pure (argument :: rest)

protected theorem argumentsUpTo (closing : TokenKind) (count : Nat) :
    Unspans source (argumentsUpTo closing count) (argumentsUpTo closing count) := by
  induction count with
  | zero => exact .unexpectedEnd
  | succ count inductionHypothesis =>
      refine Unspans.next.bind fun token => ?_
      rw [Spanned.kind_unspanned]
      split
      · refine (Unspans.atom token).bind fun argument => Unspans.next.bind fun separator => ?_
        rw [Spanned.kind_unspanned]
        split
        · exact .pure ([argument], separator.location)
        · split
          · exact inductionHypothesis.bind fun found => .pure (argument :: found.1, found.2)
          · exact .unexpected separator
      · exact .unexpected token

protected theorem delimitedArguments (closing : TokenKind) :
    Unspans source (delimitedArguments closing) (delimitedArguments closing) := by
  refine Unspans.next.bind fun _ => (Unspans.takeIf fun _ => rfl).bind fun found => ?_
  cases found with
  | some token => exact .pure (([] : List Node), token.location)
  | none => exact Unspans.ahead.bind fun count => .argumentsUpTo closing count

protected theorem application (form : ApplicationForm) (head : Token) (arguments : List Node)
    (last : Location) :
    Unspans source
      (build (.application form (.identifier head.text head.location) arguments
        (head.location.through last)))
      (build (.application form (.identifier head.text (unspanned head.location))
        (unspanned arguments) ((unspanned head.location).through (unspanned last)))) := by
  rw [← Spanned.relocatedAll_unspanned]
  exact .build (.application form (.identifier head.text head.location) arguments
    (head.location.through last))

protected theorem namedAs (form : ApplicationForm) (head : Token) :
    Unspans source (namedAs form head) (namedAs form (unspanned head)) := by
  refine Unspans.peekKind.bind fun kind => ?_
  have sameKind : unspanned kind = kind := by
    cases kind <;> rfl
  rw [sameKind]
  cases closingFor? form kind with
  | some closing =>
      exact (Unspans.delimitedArguments closing).bind fun found =>
        .application form head found.1 found.2
  | none =>
      refine Unspans.ahead.bind fun count => (Unspans.argumentRow count).bind fun arguments => ?_
      rw [Spanned.getLast?_unspanned]
      cases arguments.getLast? with
      | none => exact .pure (Node.identifier head.text head.location)
      | some last =>
          have unspans : Unspans source _ _ := .application form head arguments last.location
          rw [← Spanned.location_unspanned_node] at unspans
          exact unspans

private theorem formBehind_unspanned (cursor : Cursor) :
    formBehind (unspanned cursor) = formBehind cursor := by
  unfold formBehind
  have sameIndex : (unspanned cursor).currentIndex = cursor.currentIndex := rfl
  have sameKind (index : Nat) :
      ((unspanned cursor).get index).map Token.kind = (cursor.get index).map Token.kind := by
    unfold Cursor.get
    rw [show (unspanned cursor).tokens = cursor.tokens.map unspanned from rfl,
      Spanned.getElem?_unspanned]
    cases cursor.tokens[index]? <;> rfl
  have sameEnclosing (index : Nat) (condition : TokenKind → Bool) :
      ((unspanned cursor).lookBehind index fun token => condition token.kind).map Token.kind =
        (cursor.lookBehind index fun token => condition token.kind).map Token.kind := by
    unfold Cursor.lookBehind
    rw [show (unspanned cursor).tokens = cursor.tokens.map unspanned from rfl, Array.size_map,
      Spanned.lastBefore_unspanned cursor.tokens fun _ => rfl]
    cases Cursor.lastBefore cursor.tokens _ _ <;> rfl
  rw [sameIndex]
  cases cursor.currentIndex with
  | none => rfl
  | some index =>
      dsimp only
      have enclosing := sameEnclosing index fun kind =>
        kind.isKeyword || kind == .openBrace || kind == .closeBrace
      rw [enclosing]
      cases index with
      | zero => rfl
      | succ before =>
          dsimp only
          rw [sameKind]

protected theorem named (head : Token) :
    Unspans source (named head) (named (unspanned head)) := by
  have looks : Unspans source cursor cursor := view fun _ => rfl
  have parts (head : Token) :
      named head = cursor >>= fun cursor => namedAs (formBehind cursor) head := rfl
  rw [parts, parts]
  refine looks.bind fun cursor => ?_
  rw [formBehind_unspanned]
  exact .namedAs (formBehind cursor) head

protected theorem operand (head : Token) :
    Unspans source (operand head) (operand (unspanned head)) := by
  unfold operand
  rw [Spanned.kind_unspanned]
  split
  · exact .named head
  · exact .literal head
  · exact .literal head
  · exact .literal head
  · exact .unexpected head

protected theorem unionMembers (count : Nat) :
    Unspans source (unionMembers count) (unionMembers count) := by
  induction count with
  | zero => exact .pure ([] : List Node)
  | succ count inductionHypothesis =>
      refine (Unspans.takeIf fun _ => rfl).bind fun found => ?_
      cases found with
      | none => exact .pure ([] : List Node)
      | some token =>
          refine (Unspans.operand token).bind fun member => ?_
          refine (Unspans.takeIf fun _ => rfl).bind fun bar => ?_
          cases bar with
          | none => exact .pure [member]
          | some bar => exact inductionHypothesis.bind fun rest => .pure (member :: rest)

protected theorem union (first : Node) :
    Unspans source (union first) (union (unspanned first)) := by
  refine Unspans.ahead.bind fun count => (Unspans.unionMembers count).bind fun members => ?_
  have last : (unspanned members).getLast?.getD (unspanned first) =
      unspanned (members.getLast?.getD first) := by
    rw [Spanned.getLast?_unspanned]
    cases members.getLast? <;> rfl
  have members : Node.relocatedAll unspanned (first :: members) =
      unspanned first :: unspanned members := Spanned.relocatedAll_unspanned (first :: members)
  simp only [last, Spanned.location_unspanned_node, Spanned.through_unspanned]
  rw [← members]
  exact .build (.union (first :: _) _)

protected theorem binding (sign : Operator) (left : Node) {expression : Token → Parse Node}
    (expressions : ∀ head, Unspans source (expression head) (expression (unspanned head))) :
    Unspans source (binding sign left expression) (binding sign (unspanned left) expression) := by
  unfold binding
  split
  · exact .union left
  · refine Unspans.next.bind fun head => (expressions head).bind fun right => ?_
    rw [Spanned.location_unspanned_node, Spanned.location_unspanned_node,
      Spanned.through_unspanned]
    exact .build (.assignment left right _)

protected theorem blockOf (opening : Token) {statements other : Parse (List Node × Location)}
    (unspans : Unspans source statements other) :
    Unspans source (blockOf opening statements) (blockOf (unspanned opening) other) := by
  refine unspans.bind fun found => ?_
  have built : Unspans source _ _ :=
    .build (.block found.1 (opening.location.through found.2))
  rw [show unspanned (Node.block found.1 (opening.location.through found.2)) =
    .block (Node.relocatedAll unspanned found.1)
      ((unspanned opening.location).through (unspanned found.2)) from rfl,
    Spanned.relocatedAll_unspanned] at built
  exact built

protected theorem statementOf (form : StatementForm) (head : Token) {value other : Parse Node}
    (unspans : Unspans source value other) :
    Unspans source (statementOf form head value) (statementOf form (unspanned head) other) := by
  refine unspans.bind fun value => ?_
  rw [Spanned.location_unspanned_node]
  exact .build (.statement form value (head.location.through value.location))

protected theorem calledValue (value : Node) :
    Unspans source (calledValue value) (calledValue (unspanned value)) := by
  cases value with
  | identifier text location =>
      exact .build (.application .call (.identifier text location) [] location)
  | _ => exact .pure _

protected theorem enterMain (head : Token) :
    Unspans source (enterMain head) (enterMain (unspanned head)) := by
  have looks : Unspans source entryPoint entryPoint := view fun _ => rfl
  refine looks.bind fun entry => ?_
  cases entry with
  | some location => exact .fail (.duplicateEntry head.position)
  | none => exact fun _ ends => ⟨ends, rfl⟩

end Unspans

structure UnspansWith (source : Source) (fuel : Nat) : Prop where
  statement : ∀ head,
    Unspans source (statementWith fuel head) (statementWith fuel (unspanned head))
  block : ∀ opening,
    Unspans source (blockStatementsWith fuel opening) (blockStatementsWith fuel opening)
  expression : ∀ head,
    Unspans source (expressionWith fuel head) (expressionWith fuel (unspanned head))
  tail : ∀ left, Unspans source (tailWith fuel left) (tailWith fuel (unspanned left))

namespace UnspansWith

variable {fuel : Nat}

private theorem zero : UnspansWith source 0 where
  statement _ := .unexpectedEnd
  block opening := .fail (.incomplete opening)
  expression _ := .unexpectedEnd
  tail left := .pure left

private theorem expression_succ (unspans : UnspansWith source fuel) (head : Token) :
    Unspans source (expressionWith (fuel + 1) head)
      (expressionWith (fuel + 1) (unspanned head)) := by
  rw [expressionWith_succ, expressionWith_succ, Spanned.kind_unspanned]
  split
  · exact .blockOf head (unspans.block head.position)
  · exact (Unspans.operand head).bind unspans.tail

private theorem tail_succ (unspans : UnspansWith source fuel) (left : Node) :
    Unspans source (tailWith (fuel + 1) left) (tailWith (fuel + 1) (unspanned left)) := by
  rw [tailWith_succ, tailWith_succ]
  refine Unspans.takeOperator.bind fun found => ?_
  cases found with
  | none => exact .pure left
  | some sign =>
      rw [show unspanned (some sign) = some sign from rfl]
      cases arithmetic : MathOperator.ofOperator? sign with
      | none =>
          simp only [arithmetic]
          exact .binding sign left unspans.expression
      | some operator =>
          simp only [arithmetic]
          refine Unspans.next.bind fun head => (unspans.expression_succ head).bind fun right => ?_
          rw [Spanned.location_unspanned_node, Spanned.location_unspanned_node,
            Spanned.through_unspanned]
          exact .build (.math operator left right _)

private theorem statement_succ (unspans : UnspansWith source fuel) (head : Token) :
    Unspans source (statementWith (fuel + 1) head)
      (statementWith (fuel + 1) (unspanned head)) := by
  have value := Unspans.next.bind unspans.expression
  unfold statementWith
  rw [Spanned.kind_unspanned]
  split
  · refine (Unspans.enterMain head).bind fun _ => .statementOf .main head ?_
    exact Unspans.next.bind fun start => (unspans.expression start).bind .calledValue
  · exact .statementOf _ head value
  · exact .blockOf head (unspans.block head.position)
  · exact .unexpected head

private theorem block_succ (unspans : UnspansWith source fuel) (opening : Position) :
    Unspans source (blockStatementsWith (fuel + 1) opening)
      (blockStatementsWith (fuel + 1) opening) := by
  have sameInside (error : ParseError) :
      (unspanned error).insideBlock opening = unspanned (error.insideBlock opening) := by
    cases error <;> rfl
  have more (token : Token) : Unspans source
      (do
        let first ← (statementWith fuel token).mapError (.insideBlock opening)
        let found ← blockStatementsWith fuel opening
        return (first :: found.1, found.2))
      (do
        let first ← (statementWith fuel (unspanned token)).mapError (.insideBlock opening)
        let found ← blockStatementsWith fuel opening
        return (first :: found.1, found.2)) := by
    refine ((unspans.statement token).mapError sameInside).bind fun first => ?_
    exact (unspans.block opening).bind fun found => .pure (first :: found.1, found.2)
  unfold blockStatementsWith
  refine Unspans.advance.bind fun found => ?_
  cases found with
  | none => exact .fail (.incomplete opening)
  | some token =>
      have fails : Unspans source (fail (.incomplete opening) : Parse (List Node × Location))
          (fail (.incomplete opening)) := .fail (.incomplete opening)
      simp only [show unspanned (some token) = some (unspanned token) from rfl,
        Spanned.kind_unspanned]
      cases token.kind with
      | closeBrace => exact .pure (([] : List Node), token.location)
      | keyword word =>
          cases word with
          | typeWord | letWord | returnWord => exact more token
          | _ => exact fails
      | _ => exact fails

private theorem succ (unspans : UnspansWith source fuel) : UnspansWith source (fuel + 1) where
  statement := unspans.statement_succ
  block := unspans.block_succ
  expression := unspans.expression_succ
  tail := unspans.tail_succ

end UnspansWith

private theorem unspansWith (source : Source) (fuel : Nat) : UnspansWith source fuel := by
  induction fuel with
  | zero => exact .zero
  | succ fuel inductionHypothesis => exact inductionHypothesis.succ

protected theorem Unspans.statement (head : Token) :
    Unspans source (statement head) (statement (unspanned head)) := by
  rw [statement_eq, statement_eq]
  exact Unspans.ahead.bind fun count => (unspansWith source (2 * count + 1)).statement head

protected theorem Unspans.statements (count : Nat) :
    Unspans source (statements count) (statements count) := by
  induction count with
  | zero => exact .pure ([] : List Node)
  | succ count inductionHypothesis =>
      refine Unspans.advance.bind fun found => ?_
      cases found with
      | none => exact .pure ([] : List Node)
      | some token =>
          exact (Unspans.statement token).bind fun first =>
            inductionHypothesis.bind fun rest => .pure (first :: rest)

/-- A program without bytes is made of its statements without bytes. -/
theorem unspanned_program (parser : Parser) :
    unspanned (program parser).1 =
      match unspanned (statements parser.cursor.ahead parser).1 with
      | .ok nodes => (Node.program nodes ⟨1, 0, 0, 0⟩).checked.mapError .invalidNode
      | .error error => .error error := by
  have parts : program parser = (statements parser.cursor.ahead >>= fun body =>
      extent >>= fun place => build (.program body place)) parser := rfl
  rw [parts]
  cases ran : statements parser.cursor.ahead parser with
  | mk outcome behind =>
      cases outcome with
      | error error =>
          rw [bind_of_error ran]
          rfl
      | ok nodes =>
          rw [bind_of_ok ran, bind_of_ok (show extent behind = (.ok _, behind) from rfl),
            build_eq_checked, ← Spanned.checked_unspanned,
            show unspanned (Node.program nodes behind.source.extent) =
              .program (Node.relocatedAll unspanned nodes) ⟨1, 0, 0, 0⟩ from rfl,
            Spanned.relocatedAll_unspanned]
          rfl

private theorem ofTokens_unspanned (source other : Source) (tokens : List Token) :
    (Parser.ofTokens source tokens).unspanned other = .ofTokens other (unspanned tokens) := by
  have cursor : unspanned (Cursor.ofList tokens) = .ofList (unspanned tokens) := by
    change Cursor.mk (tokens.toArray.map unspanned) 0 = _
    rw [List.map_toArray]
    rfl
  unfold Parser.ofTokens Parser.unspanned
  rw [cursor]
  rfl

/-- Two texts that end at the same position and whose tokens are equal but for bytes are the same
program but for bytes, or fail with errors that are equal but for bytes. -/
theorem program_unspanned {other : Source} {tokens others : List Token}
    (sameEnd : other.endPosition = source.endPosition)
    (same : unspanned others = unspanned tokens) :
    unspanned (program (.ofTokens other others)).1 =
      unspanned (program (.ofTokens source tokens)).1 := by
  have sameLength : others.length = tokens.length := by
    have lengths := congrArg List.length same
    rwa [show unspanned others = others.map unspanned from rfl, List.length_map,
      show unspanned tokens = tokens.map unspanned from rfl, List.length_map] at lengths
  have runs {place : Source} (tokens : List Token) (count : Nat)
      (ends : place.endPosition = other.endPosition) :
      (statements count (.ofTokens other (unspanned tokens))).1 =
        unspanned (statements count (.ofTokens place tokens)).1 := by
    have ran := (Unspans.statements count (.ofTokens place tokens) ends).2
    rw [ofTokens_unspanned] at ran
    exact congrArg Prod.fst ran
  have ahead (place : Source) (tokens : List Token) :
      (Parser.ofTokens place tokens).cursor.ahead = tokens.length := rfl
  rw [unspanned_program, unspanned_program, ahead, ahead, sameLength, ← runs others _ rfl,
    ← runs tokens _ sameEnd.symm, same]

end Parse

end SprigCompiler
