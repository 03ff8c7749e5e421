import SprigCompiler.Proofs.Parser.Lookahead

/-!
The parser without a count of its own.

These are the loops and calls of the parser with nothing that counts them down: each goes on for as
long as the tokens make it go on, and looks ahead by taking a token and stepping back, or by going
back to a mark.  A round of them leaves to others of their kind what they do again.  Out of rounds,
a run has no outcome at all, whatever its steps did up to there.
-/

namespace SprigCompiler.Parse

def resetTo (mark : Cursor.Mark) : Parse Unit :=
  fun parser => (.ok (), { parser with cursor := parser.cursor.reset mark })

/-- Steps of which there may be no end.  Then there is neither a result nor a parser behind. -/
abbrev Loop (Result : Type) := ExceptT ParseError (StateT Parser Option) Result

namespace Loop

variable {Result : Type}

def once (step : Parse Result) : Loop Result :=
  ExceptT.mk fun parser => some (step parser)

def never : Loop Result :=
  ExceptT.mk fun _ => none

end Loop

structure Loops where
  argumentRow : Loop (List Node)
  /-- The arguments up to a closing delimiter, from the first one on, and the location of the
  delimiter. -/
  argumentsUpTo : TokenKind → Loop (List Node × Location)
  unionMembers : Loop (List Node)
  statement : Token → Loop Node
  blockStatements : Position → Loop (List Node × Location)
  expression : Token → Loop Node
  chain : Node → List (MathOperator × Node) → Loop (Node × List (MathOperator × Node))
  statements : Loop (List Node)

namespace Round

open Loop (once)

variable (again : Loops)

def argumentRow : Loop (List Node) := do
  match ← once peekKind with
  | none => return []
  | some kind =>
      if kind.isAtom then
        let token ← once next
        let argument ← once (atom token)
        let rest ← again.argumentRow
        return argument :: rest
      else return []

def argumentsUpTo (closing : TokenKind) : Loop (List Node × Location) := do
  let token ← once next
  if token.kind.isAtom then
    let argument ← once (atom token)
    let separator ← once next
    if separator.kind = closing then return ([argument], separator.location)
    else if separator.kind = .comma then
      let (rest, last) ← again.argumentsUpTo closing
      return (argument :: rest, last)
    else once (unexpected separator)
  else once (unexpected token)

def delimitedArguments (closing : TokenKind) : Loop (List Node × Location) := do
  let _opening ← once next
  if (← once peekKind) = some closing then
    let token ← once next
    return ([], token.location)
  else again.argumentsUpTo closing

def named (head : Token) : Loop Node := do
  let form := formBehind (← once cursor)
  let name := Node.identifier head.text head.location
  match closingFor? form (← once peekKind) with
  | some closing =>
      let (arguments, last) ← delimitedArguments again closing
      once (build (.application form name arguments (head.location.through last)))
  | none =>
      let arguments ← again.argumentRow
      match arguments.getLast? with
      | none => return name
      | some last =>
          once (build (.application form name arguments (head.location.through last.location)))

def operand (head : Token) : Loop Node :=
  match head.kind with
  | .identifier => named again head
  | .string | .number | .boolean => once (literal head)
  | _ => once (unexpected head)

/-- A token that ends the union is put back, and what is no further bar is gone back to. -/
def unionMembers : Loop (List Node) := do
  match ← once advance with
  | none => return []
  | some token =>
      if endsUnion token then
        once retreat
        return []
      else
        let member ← operand again token
        let mark := (← once cursor).mark
        match ← once advance with
        | none =>
            once (resetTo mark)
            return [member]
        | some bar =>
            if bar.isOperator .union then
              let rest ← again.unionMembers
              return member :: rest
            else
              once (resetTo mark)
              return [member]

def union (first : Node) : Loop Node := do
  let members ← again.unionMembers
  let last := (members.getLast?).getD first
  once (build (.union (first :: members) (first.location.through last.location)))

def block (opening : Token) : Loop Node := do
  let (body, closing) ← again.blockStatements opening.position
  once (build (.block body (opening.location.through closing)))

def statement (head : Token) : Loop Node :=
  match head.kind with
  | .keyword .mainWord => do
      once (enterMain head)
      let value ← again.expression (← once next)
      let value ← once (calledValue value)
      once (build (.statement .main value (head.location.through value.location)))
  | .keyword word => do
      let value ← again.expression (← once next)
      once (build (.statement (formOf word) value (head.location.through value.location)))
  | .openBrace => block again head
  | _ => once (unexpected head)

def blockStatements (opening : Position) : Loop (List Node × Location) := do
  match ← once advance with
  | none => once (fail (.incomplete opening))
  | some token =>
      match token.kind with
      | .closeBrace => return ([], token.location)
      | .keyword .typeWord | .keyword .letWord | .keyword .returnWord =>
          let first ← show StateT Parser Option (Except ParseError Node) from do
            return (← (again.statement token).run).mapError (.insideBlock opening)
          let (rest, closing) ← again.blockStatements opening
          return (first :: rest, closing)
      | _ => once (fail (.incomplete opening))

def expression (head : Token) : Loop Node := do
  if head.kind = .openBrace then block again head
  else do
    let (first, rest) ← again.chain (← operand again head) []
    once (groupChain first rest)

def lastOperand (first : Node) : List (MathOperator × Node) → Node
  | [] => first
  | (_, left) :: _ => left

def replaceLast (first : Node) (found : List (MathOperator × Node)) (bound : Node) :
    Node × List (MathOperator × Node) :=
  match found with
  | [] => (bound, [])
  | (operator, _) :: earlier => (first, (operator, bound) :: earlier)

/-- A token that is no operator is put back. -/
def chain (first : Node) (found : List (MathOperator × Node)) :
    Loop (Node × List (MathOperator × Node)) := do
  match ← once advance with
  | none => return (first, found)
  | some token =>
      match token.kind.operator? with
      | none =>
          once retreat
          return (first, found)
      | some sign =>
          match MathOperator.ofOperator? sign with
          | some operator =>
              let head ← once next
              if head.kind = .openBrace then
                let right ← block again head
                return (first, (operator, right) :: found)
              else
                let right ← operand again head
                again.chain first ((operator, right) :: found)
          | none =>
              let left := lastOperand first found
              if sign = .union then
                let bound ← union again left
                return replaceLast first found bound
              else
                let right ← again.expression (← once next)
                let bound ← once
                  (build (.assignment left right (left.location.through right.location)))
                return replaceLast first found bound

def statements : Loop (List Node) := do
  match ← once advance with
  | none => return []
  | some token =>
      let first ← again.statement token
      let rest ← again.statements
      return first :: rest

def program : Loop Node := do
  let body ← again.statements
  once (build (.program body (← once extent)))

end Round

namespace Loops

def never : Loops where
  argumentRow := .never
  argumentsUpTo _ := .never
  unionMembers := .never
  statement _ := .never
  blockStatements _ := .never
  expression _ := .never
  chain _ _ := .never
  statements := .never

def roundBefore (again : Loops) : Loops where
  argumentRow := Round.argumentRow again
  argumentsUpTo := Round.argumentsUpTo again
  unionMembers := Round.unionMembers again
  statement := Round.statement again
  blockStatements := Round.blockStatements again
  expression := Round.expression again
  chain := Round.chain again
  statements := Round.statements again

/-- Loops that end only if this many rounds, one inside the other, are enough. -/
def within : Nat → Loops
  | 0 => never
  | count + 1 => (within count).roundBefore

end Loops

end SprigCompiler.Parse
