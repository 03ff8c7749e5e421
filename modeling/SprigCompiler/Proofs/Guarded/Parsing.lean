import SprigCompiler.Proofs.Guarded.Tokens
import SprigCompiler.Proofs.Parser.Validity
import SprigCompiler.Proofs.Token.Zipper

/-!
Guarded parsing.

The steps of the parser once more, with guarded operations where a position is looked up, where the
tokens before a name are sliced off, where a name is applied as a node of some kind, and where the
first and last member of a union are taken.  From every parser each step does what it does without
guards.
-/

namespace SprigCompiler

def Parse.Call.runAll : List Parse.Call → Parser → List (Except ParseError Node) × Parser
  | [], parser => ([], parser)
  | call :: calls, parser =>
      let (outcome, behind) := call.run parser
      let (others, last) := runAll calls behind
      (outcome :: others, last)

namespace Guarded

open Parse (advance takeIf peekKind ahead takeOperator headFuel enterMain groupChain)

/-- A step of a parser that gives nothing when an operation leaves its domain. -/
def Step (Result : Type) : Type := Parser → Option (Except ParseError Result × Parser)

namespace Step

variable {Result First Second : Type}

def plain (step : Parse Result) : Step Result := fun parser => some (step parser)

def guarded (operation : Parser → Option Result) : Step Result :=
  fun parser => (operation parser).map fun result => (.ok result, parser)

protected def bind (step : Step First) (next : First → Step Second) : Step Second :=
  fun parser => do
    match ← step parser with
    | (.ok result, behind) => next result behind
    | (.error error, behind) => some (.error error, behind)

instance : Monad Step where
  pure result := plain (pure result)
  bind := Step.bind

def fail (error : Parser → Option ParseError) : Step Result :=
  fun parser => (error parser).map fun error => (.error error, parser)

def mapError (change : ParseError → ParseError) (step : Step Result) : Step Result :=
  fun parser => (step parser).map fun outcome => (outcome.1.mapError change, outcome.2)

end Step

open Step (plain guarded)

def unexpectedEnd {Result : Type} : Step Result :=
  .fail fun parser => do
    return .unexpectedEnd (← position? parser.source.content.toList parser.source.size)

def next : Step Token := do
  match ← plain advance with
  | some token => return token
  | none => unexpectedEnd

/-- The tokens before an index that does not lie behind their end. -/
def tokensBefore? (tokens : List Token) (index : Nat) : Option (List Token) :=
  if index ≤ tokens.length then some (tokens.take index) else none

/-- The last token before an index, or among all tokens if there are fewer, that meets a
condition. -/
def lookBehind? (cursor : Cursor) (index : Nat) (condition : Token → Bool) :
    Option (Option Token) := do
  let tokens := cursor.tokens.toList
  return (← tokensBefore? tokens (min index tokens.length)).reverse.find? condition

def kindBehind? (cursor : Cursor) : Option NodeKind :=
  match cursor.currentIndex with
  | none => some .functionCallExpression
  | some index =>
      let previous :=
        match index with
        | 0 => none
        | before + 1 => (cursor.get before).map Token.kind
      match previous with
      | some (.keyword .typeWord) => some .typeParameterExpression
      | some (.keyword .funWord) => some .functionParameterExpression
      | some (.keyword .funcWord) => some .functionParameterExpression
      | _ => do
          let enclosing ← lookBehind? cursor index fun token =>
            token.kind.isKeyword || token.kind == .openBrace || token.kind == .closeBrace
          match enclosing.map Token.kind with
          | some (.keyword .typeWord) => some .typeInstantiationExpression
          | _ => some .functionCallExpression

def closingOf? (kind : NodeKind) (opening : Option TokenKind) : Option TokenKind :=
  match opening with
  | some .openParen => some .closeParen
  | some .openAngle =>
      if kind = .typeParameterExpression ∨ kind = .typeInstantiationExpression then
        some .closeAngle
      else none
  | _ => none

/-- Applies a name to arguments.  The kind has to be that of an application. -/
def application? (kind : NodeKind) (head : Node) (arguments : List Node) (location : Location) :
    Option (Except ValidationError Node) :=
  match Node.applicationOfKind kind head arguments location with
  | .ok node => some (.ok node)
  | .error (.invalid error) => some (.error error)
  | .error (.notApplication _) => none

def apply (kind : NodeKind) (head : Node) (arguments : List Node) (location : Location) :
    Step Node := do
  match ← guarded fun _ => application? kind head arguments location with
  | .ok node => return node
  | .error error => plain (Parse.fail (.invalidNode error))

def argumentsUpTo (closing : TokenKind) : Nat → Step (List Node × Location)
  | 0 => unexpectedEnd
  | count + 1 => do
      let token ← next
      if token.kind.isAtom then
        let argument ← plain (Parse.atom token)
        let separator ← next
        if separator.kind = closing then return ([argument], separator.location)
        else if separator.kind = .comma then
          let (rest, last) ← argumentsUpTo closing count
          return (argument :: rest, last)
        else plain (Parse.unexpected separator)
      else plain (Parse.unexpected token)

def delimitedArguments (closing : TokenKind) : Step (List Node × Location) := do
  let _opening ← next
  match ← plain (takeIf (·.kind == closing)) with
  | some token => return ([], token.location)
  | none => argumentsUpTo closing (← plain ahead)

def named (head : Token) : Step Node := do
  let kind ← guarded fun parser => kindBehind? parser.cursor
  let name := Node.identifier head.text head.location
  match closingOf? kind (← plain peekKind) with
  | some closing =>
      let (arguments, last) ← delimitedArguments closing
      apply kind name arguments (head.location.through last)
  | none =>
      let arguments ← plain (do Parse.argumentRow (← ahead))
      match arguments.getLast? with
      | none => return name
      | some last => apply kind name arguments (head.location.through last.location)

def operand (head : Token) : Step Node :=
  match head.kind with
  | .identifier => named head
  | _ => plain (Parse.operand head)

def unionMembers : Nat → Step (List Node)
  | 0 => return []
  | count + 1 => do
      match ← plain (takeIf (!Parse.endsUnion ·)) with
      | none => return []
      | some token =>
          let member ← operand token
          match ← plain (takeIf (·.isOperator .union)) with
          | none => return [member]
          | some _ =>
              let rest ← unionMembers count
              return member :: rest

def ends? (nodes : List Node) : Option (Node × Node) := do
  let first ← nodes[0]?
  let last ← nodes[← sub? nodes.length 1]?
  return (first, last)

def union (first : Node) : Step Node := do
  let members ← unionMembers (← plain ahead)
  let (start, last) ← guarded fun _ => ends? (first :: members)
  plain (Parse.build (.union (first :: members) (start.location.through last.location)))

def calledValue (value : Node) : Step Node :=
  match value with
  | .identifier _ location => apply .functionCallExpression value [] location
  | _ => return value

def blockOf (opening : Token) (statements : Step (List Node × Location)) : Step Node := do
  let (body, closing) ← statements
  plain (Parse.build (.block body (opening.location.through closing)))

def statementOf (form : StatementForm) (head : Token) (value : Step Node) : Step Node := do
  let value ← value
  plain (Parse.build (.statement form value (head.location.through value.location)))

def binding (sign : Operator) (left : Node) (expression : Token → Step Node) : Step Node :=
  if sign = .union then union left
  else do
    let right ← expression (← next)
    plain (Parse.build (.assignment left right (left.location.through right.location)))

mutual
def statementWith : Nat → Token → Step Node
  | 0, _ => unexpectedEnd
  | fuel + 1, head =>
      match head.kind with
      | .keyword .mainWord => do
          plain (enterMain head)
          statementOf .main head (do calledValue (← expressionWith fuel (← next)))
      | .keyword word =>
          statementOf (Parse.formOf word) head (do expressionWith fuel (← next))
      | .openBrace => blockOf head (blockStatementsWith fuel head.position)
      | _ => plain (Parse.unexpected head)

def blockStatementsWith : Nat → Position → Step (List Node × Location)
  | 0, opening => plain (Parse.fail (.incomplete opening))
  | fuel + 1, opening => do
      match ← plain advance with
      | none => plain (Parse.fail (.incomplete opening))
      | some token =>
          match token.kind with
          | .closeBrace => return ([], token.location)
          | .keyword .typeWord | .keyword .letWord | .keyword .returnWord =>
              let first ← (statementWith fuel token).mapError (.insideBlock opening)
              let (rest, closing) ← blockStatementsWith fuel opening
              return (first :: rest, closing)
          | _ => plain (Parse.fail (.incomplete opening))

def expressionWith : Nat → Token → Step Node
  | 0, _ => unexpectedEnd
  | fuel + 1, head =>
      if head.kind = .openBrace then blockOf head (blockStatementsWith fuel head.position)
      else do
        let (first, rest) ← chainWith fuel (← operand head) []
        plain (groupChain first rest)

def chainWith : Nat → Node → List (MathOperator × Node) →
    Step (Node × List (MathOperator × Node))
  | 0, first, found => return (first, found)
  | fuel + 1, first, found => do
      match ← plain takeOperator with
      | none => return (first, found)
      | some sign =>
          match MathOperator.ofOperator? sign with
          | some operator =>
              let head ← next
              if head.kind = .openBrace then
                let right ← blockOf head (blockStatementsWith fuel head.position)
                return (first, (operator, right) :: found)
              else
                let right ← operand head
                chainWith fuel first ((operator, right) :: found)
          | none =>
              match found with
              | (operator, left) :: earlier =>
                  let bound ← binding sign left (expressionWith fuel)
                  return (first, (operator, bound) :: earlier)
              | [] =>
                  let bound ← binding sign first (expressionWith fuel)
                  return (bound, [])
end

def statement (head : Token) : Step Node := do statementWith (← plain headFuel) head

def statements : Nat → Step (List Node)
  | 0 => return []
  | count + 1 => do
      match ← plain advance with
      | none => return []
      | some token =>
          let first ← statement token
          let rest ← statements count
          return first :: rest

def program : Step Node := do
  let body ← statements (← plain ahead)
  let extent ← guarded fun parser =>
    location? parser.source.content.toList 0 parser.source.size
  plain (Parse.build (.program body extent))

def run : Parse.Call → Step Node
  | .program => program
  | .statement head => statement head
  | .expression head => do expressionWith (← plain headFuel) head
  | .block opening => do
      blockOf opening (blockStatementsWith (← plain headFuel) opening.position)

def runAll? : List Parse.Call → Parser → Option (List (Except ParseError Node) × Parser)
  | [], parser => some ([], parser)
  | call :: calls, parser => do
      let (outcome, behind) ← run call parser
      let (others, last) ← runAll? calls behind
      return (outcome :: others, last)

/-! ### Steps that do the same without guards -/

variable {Result First Second : Type}

/-- Whether a step does, from every parser, what another step does without guards. -/
structure Keeps (step : Step Result) (unguarded : Parse Result) : Prop where
  run : ∀ parser, step parser = some (unguarded parser)

protected theorem Keeps.plain (step : Parse Result) : Keeps (plain step) step := ⟨fun _ => rfl⟩

protected theorem Keeps.pure (result : Result) : Keeps (pure result) (pure result) :=
  ⟨fun _ => rfl⟩

protected theorem Keeps.bind {step : Step First} {unguarded : Parse First}
    {rest : First → Step Second} {others : First → Parse Second} (first : Keeps step unguarded)
    (second : ∀ result, Keeps (rest result) (others result)) :
    Keeps (step >>= rest) (unguarded >>= others) := by
  constructor
  intro parser
  change Step.bind step rest parser = some (Parse.bind unguarded others parser)
  unfold Step.bind Parse.bind
  rw [first.run]
  cases unguarded parser with
  | mk outcome behind =>
      cases outcome with
      | ok result => exact (second result).run behind
      | error error => rfl

protected theorem Keeps.mapError {step : Step Result} {unguarded : Parse Result}
    (keeps : Keeps step unguarded) (change : ParseError → ParseError) :
    Keeps (step.mapError change) (unguarded.mapError change) := by
  constructor
  intro parser
  unfold Step.mapError Parse.mapError
  rw [keeps.run]
  cases unguarded parser with
  | mk outcome behind => cases outcome <;> rfl

theorem Keeps.guarded_bind {operation : Parser → Option First} {result : First}
    {rest : First → Step Second} {others : Parse Second}
    (inside : ∀ parser, operation parser = some result) (second : Keeps (rest result) others) :
    Keeps (guarded operation >>= rest) others := by
  constructor
  intro parser
  change Step.bind (guarded operation) rest parser = _
  unfold Step.bind guarded
  rw [inside]
  exact second.run parser

theorem Keeps.guarded_view {Seen : Type} {operation : Parser → Option First}
    (seen : Parser → Seen) (view : Seen → First) {rest : First → Step Second}
    {others : Seen → Parse Second}
    (inside : ∀ parser, operation parser = some (view (seen parser)))
    (second : ∀ result, Keeps (rest (view result)) (others result)) :
    Keeps (guarded operation >>= rest)
      ((fun parser => (.ok (seen parser), parser) : Parse Seen) >>= others) := by
  constructor
  intro parser
  change Step.bind (guarded operation) rest parser = some (Parse.bind _ others parser)
  unfold Step.bind guarded Parse.bind
  rw [inside]
  exact (second _).run parser

theorem byteCount_content (source : Source) : byteCount source.content.toList = source.size :=
  byteCount_toList source.content

private theorem keeps_unexpectedEnd :
    Keeps (unexpectedEnd : Step Result) Parse.unexpectedEnd := by
  constructor
  intro parser
  have found := position?_byteCount parser.source.content.toList []
  rw [List.append_nil, byteCount_content] at found
  have isError : (do
      return ParseError.unexpectedEnd
        (← position? parser.source.content.toList parser.source.size)) =
        some (.unexpectedEnd parser.source.endPosition) := by
    rw [found]
    rfl
  exact congrArg (Option.map fun error => (Except.error error, parser)) isError

private theorem keeps_next : Keeps next Parse.next := by
  refine .bind (.plain advance) fun found => ?_
  cases found with
  | none => exact keeps_unexpectedEnd
  | some token => exact .pure token

private theorem lookBehind?_eq (cursor : Cursor) (index : Nat) (condition : Token → Bool) :
    lookBehind? cursor index condition = some (cursor.lookBehind index condition) := by
  have within : min index cursor.tokens.toList.length ≤ cursor.tokens.toList.length :=
    Nat.min_le_right _ _
  unfold lookBehind? tokensBefore? Cursor.lookBehind
  rw [Cursor.lastBefore_eq]
  simp only [if_pos within]
  rfl

private theorem kind_of_enclosing (enclosing : Option TokenKind) :
    (match enclosing with
      | some (.keyword .typeWord) => some NodeKind.typeInstantiationExpression
      | _ => some .functionCallExpression) =
    some (match enclosing with
      | some (.keyword .typeWord) => ApplicationForm.instantiation
      | _ => .call).kind := by
  cases enclosing with
  | none => rfl
  | some kind =>
      cases kind with
      | keyword word => cases word <;> rfl
      | _ => rfl

/-- The kind behind a cursor is always that of an application. -/
theorem kindBehind?_eq (cursor : Cursor) :
    kindBehind? cursor = some (Parse.formBehind cursor).kind := by
  unfold kindBehind? Parse.formBehind
  cases cursor.currentIndex with
  | none => rfl
  | some index =>
      simp only [lookBehind?_eq, Option.bind_eq_bind, Option.bind_some]
      generalize Option.map Token.kind (cursor.lookBehind index _) = enclosing
      have below := kind_of_enclosing enclosing
      cases index with
      | zero => exact below
      | succ before =>
          dsimp only
          cases (cursor.get before).map Token.kind with
          | none => exact below
          | some kind =>
              cases kind with
              | keyword word => cases word <;> first | rfl | exact below
              | _ => exact below

private theorem closingOf?_kind (form : ApplicationForm) (opening : Option TokenKind) :
    closingOf? form.kind opening = Parse.closingFor? form opening := by
  unfold closingOf? Parse.closingFor?
  cases form <;> rfl

private theorem application?_kind (form : ApplicationForm) (head : Node) (arguments : List Node)
    (location : Location) :
    application? form.kind head arguments location =
      some (Node.application form head arguments location).checked := by
  unfold application? Node.applicationOfKind
  rw [Node.ofKind?_kind]
  dsimp only
  cases (Node.application form head arguments location).checked <;> rfl

private theorem keeps_apply (form : ApplicationForm) (head : Node) (arguments : List Node)
    (location : Location) :
    Keeps (apply form.kind head arguments location)
      (Parse.build (.application form head arguments location)) := by
  refine .guarded_bind (fun _ => application?_kind form head arguments location) ?_
  unfold Parse.build
  cases (Node.application form head arguments location).checked with
  | ok node => exact .pure node
  | error error => exact .plain _

private theorem keeps_argumentsUpTo (closing : TokenKind) (count : Nat) :
    Keeps (argumentsUpTo closing count) (Parse.argumentsUpTo closing count) := by
  induction count with
  | zero => exact keeps_unexpectedEnd
  | succ count inductionHypothesis =>
      refine .bind keeps_next fun token => ?_
      split
      · refine .bind (.plain _) fun argument => .bind keeps_next fun separator => ?_
        split
        · exact .pure _
        · split
          · exact .bind inductionHypothesis fun _ => .pure _
          · exact .plain _
      · exact .plain _

private theorem keeps_delimitedArguments (closing : TokenKind) :
    Keeps (delimitedArguments closing) (Parse.delimitedArguments closing) := by
  refine .bind keeps_next fun _ => .bind (.plain _) fun found => ?_
  cases found with
  | some token => exact .pure _
  | none => exact .bind (.plain ahead) fun count => keeps_argumentsUpTo closing count

private theorem keeps_named (head : Token) : Keeps (named head) (Parse.named head) := by
  refine .guarded_view Parser.cursor (fun cursor => (Parse.formBehind cursor).kind)
    (fun parser => kindBehind?_eq parser.cursor) fun cursor => ?_
  refine .bind (.plain peekKind) fun opening => ?_
  dsimp only
  rw [closingOf?_kind]
  cases Parse.closingFor? (Parse.formBehind cursor) opening with
  | some closing =>
      exact .bind (keeps_delimitedArguments closing) fun _ => keeps_apply _ _ _ _
  | none =>
      have row : Keeps (plain (do Parse.argumentRow (← ahead)))
          (do Parse.argumentRow (← ahead)) := .plain _
      dsimp only
      rw [← Parse.bind_assoc_eq]
      refine .bind row fun arguments => ?_
      cases arguments.getLast? with
      | none => exact .pure _
      | some last => exact keeps_apply _ _ _ _

private theorem keeps_operand (head : Token) : Keeps (operand head) (Parse.operand head) := by
  by_cases isName : head.kind = .identifier
  · rw [Parse.operand_eq_named isName]
    unfold operand
    rw [isName]
    exact keeps_named head
  · unfold operand
    split
    · contradiction
    · exact .plain _

private theorem keeps_unionMembers (count : Nat) :
    Keeps (unionMembers count) (Parse.unionMembers count) := by
  induction count with
  | zero => exact .pure []
  | succ count inductionHypothesis =>
      refine .bind (.plain _) fun found => ?_
      cases found with
      | none => exact .pure []
      | some token =>
          refine .bind (keeps_operand token) fun member => .bind (.plain _) fun bar => ?_
          cases bar with
          | none => exact .pure [member]
          | some _ => exact .bind inductionHypothesis fun _ => .pure _

/-- A union has its first member in front, so that there is a last one too. -/
theorem ends?_cons (first : Node) (members : List Node) :
    ends? (first :: members) = some (first, members.getLast?.getD first) := by
  have last : (first :: members)[members.length]? = some (members.getLast?.getD first) := by
    rw [← List.getLast?_cons, List.getLast?_eq_getElem?]
    rfl
  unfold ends?
  rw [List.length_cons, sub?_of_le (Nat.le_add_left 1 _), Nat.add_sub_cancel]
  change (do let last ← (first :: members)[members.length]?; return (first, last)) = _
  rw [last]
  rfl

private theorem keeps_union (first : Node) : Keeps (union first) (Parse.union first) :=
  .bind (.plain ahead) fun count => .bind (keeps_unionMembers count) fun members =>
    .guarded_bind (fun _ => ends?_cons first members) (.plain _)

private theorem keeps_calledValue (value : Node) :
    Keeps (calledValue value) (Parse.calledValue value) := by
  cases value with
  | identifier name location => exact keeps_apply .call _ [] location
  | _ => exact .pure _

private theorem keeps_blockOf (opening : Token) {inside : Step (List Node × Location)}
    {unguarded : Parse (List Node × Location)} (keeps : Keeps inside unguarded) :
    Keeps (blockOf opening inside) (Parse.blockOf opening unguarded) :=
  .bind keeps fun _ => .plain _

private theorem keeps_statementOf (form : StatementForm) (head : Token) {value : Step Node}
    {unguarded : Parse Node} (keeps : Keeps value unguarded) :
    Keeps (statementOf form head value) (Parse.statementOf form head unguarded) :=
  .bind keeps fun _ => .plain _

private theorem keeps_binding (sign : Operator) (left : Node) {right : Token → Step Node}
    {unguarded : Token → Parse Node} (keeps : ∀ token, Keeps (right token) (unguarded token)) :
    Keeps (binding sign left right) (Parse.binding sign left unguarded) := by
  unfold binding Parse.binding
  split
  · exact keeps_union left
  · exact .bind keeps_next fun token => .bind (keeps token) fun _ => .plain _

structure KeepsAll (fuel : Nat) : Prop where
  statement : ∀ head, Keeps (statementWith fuel head) (Parse.statementWith fuel head)
  block : ∀ opening,
    Keeps (blockStatementsWith fuel opening) (Parse.blockStatementsWith fuel opening)
  expression : ∀ head, Keeps (expressionWith fuel head) (Parse.expressionWith fuel head)
  chain : ∀ first found, Keeps (chainWith fuel first found) (Parse.chainWith fuel first found)

variable {fuel : Nat}

private theorem keeps_statementWith (keeps : KeepsAll fuel) (head : Token) :
    Keeps (statementWith (fuel + 1) head) (Parse.statementWith (fuel + 1) head) := by
  unfold statementWith Parse.statementWith
  cases head.kind with
  | keyword word =>
      cases word with
      | mainWord =>
          refine .bind (.plain _) fun _ => keeps_statementOf .main head ?_
          exact .bind keeps_next fun token => .bind (keeps.expression token) keeps_calledValue
      | _ => exact keeps_statementOf _ head (.bind keeps_next keeps.expression)
  | openBrace => exact keeps_blockOf head (keeps.block head.position)
  | _ => exact .plain _

private theorem keeps_blockStatementsWith (keeps : KeepsAll fuel) (opening : Position) :
    Keeps (blockStatementsWith (fuel + 1) opening)
      (Parse.blockStatementsWith (fuel + 1) opening) := by
  unfold blockStatementsWith Parse.blockStatementsWith
  refine .bind (.plain advance) fun found => ?_
  cases found with
  | none => exact .plain _
  | some token =>
      have first := (keeps.statement token).mapError (.insideBlock opening)
      dsimp only
      cases token.kind with
      | closeBrace => exact .pure _
      | keyword word =>
          cases word <;> first
            | exact .plain _
            | exact .bind first fun _ => .bind (keeps.block opening) fun _ => .pure _
      | _ => exact .plain _

private theorem keeps_chainWith (keeps : KeepsAll fuel) (first : Node)
    (found : List (MathOperator × Node)) :
    Keeps (chainWith (fuel + 1) first found) (Parse.chainWith (fuel + 1) first found) := by
  unfold chainWith Parse.chainWith
  refine .bind (.plain takeOperator) fun sign => ?_
  cases sign with
  | none => exact .pure _
  | some sign =>
      dsimp only
      cases MathOperator.ofOperator? sign with
      | some operator =>
          refine .bind keeps_next fun head => ?_
          split
          · exact .bind (keeps_blockOf head (keeps.block head.position)) fun _ => .pure _
          · exact .bind (keeps_operand head) fun right => keeps.chain first _
      | none =>
          cases found with
          | cons last earlier =>
              exact .bind (keeps_binding sign last.2 keeps.expression) fun _ => .pure _
          | nil => exact .bind (keeps_binding sign first keeps.expression) fun _ => .pure _

private theorem keeps_expressionWith (keeps : KeepsAll fuel) (head : Token) :
    Keeps (expressionWith (fuel + 1) head) (Parse.expressionWith (fuel + 1) head) := by
  unfold expressionWith Parse.expressionWith
  split
  · exact keeps_blockOf head (keeps.block head.position)
  · exact .bind (keeps_operand head) fun first => .bind (keeps.chain first []) fun _ => .plain _

private theorem keepsAll (fuel : Nat) : KeepsAll fuel := by
  induction fuel with
  | zero =>
      exact ⟨fun _ => keeps_unexpectedEnd, fun _ => .plain _, fun _ => keeps_unexpectedEnd,
        fun _ _ => .pure _⟩
  | succ fuel inductionHypothesis =>
      exact ⟨keeps_statementWith inductionHypothesis, keeps_blockStatementsWith inductionHypothesis,
        keeps_expressionWith inductionHypothesis, keeps_chainWith inductionHypothesis⟩

private theorem keeps_statement (head : Token) : Keeps (statement head) (Parse.statement head) :=
  .bind (.plain headFuel) fun fuel => (keepsAll fuel).statement head

private theorem keeps_statements (count : Nat) :
    Keeps (statements count) (Parse.statements count) := by
  induction count with
  | zero => exact .pure []
  | succ count inductionHypothesis =>
      refine .bind (.plain advance) fun found => ?_
      cases found with
      | none => exact .pure []
      | some token =>
          exact .bind (keeps_statement token) fun _ => .bind inductionHypothesis fun _ => .pure _

private theorem extent_eq (source : Source) :
    location? source.content.toList 0 source.size = some source.extent := by
  have located := location?_upTo [] source.content.toList []
  simp only [List.nil_append, List.append_nil, byteCount_content] at located
  exact located

theorem keeps_program : Keeps program Parse.program :=
  .bind (.plain ahead) fun count => .bind (keeps_statements count) fun _ =>
    .guarded_view (fun parser => parser.source.extent) id (fun parser => extent_eq parser.source)
      fun _ => .plain _

/-- However a parser is asked, no guarded operation leaves its domain. -/
theorem keeps_run (call : Parse.Call) : Keeps (run call) call.run := by
  cases call with
  | program => exact keeps_program
  | statement head => exact keeps_statement head
  | expression head =>
      exact .bind (.plain headFuel) fun fuel => (keepsAll fuel).expression head
  | block opening =>
      exact .bind (.plain headFuel) fun fuel =>
        keeps_blockOf opening ((keepsAll fuel).block opening.position)

end Guarded

end SprigCompiler
