import SprigCompiler.Parser.Application

/-!
Expressions, statements and blocks.

An expression is a chain of operands with operators between them.  There is no precedence: each
operator takes the whole rest of the chain as its right side, and `=` and `|` take the operand
directly before them as their left side.

The functions call one another, and before a call comes back to where it started a token has been
taken.  Each counts its calls down from a `fuel` that twice the number of tokens ahead always
covers.
-/

namespace SprigCompiler.Parse

/-- Groups a chain from its right end.  `operator` and `right` are its last operator and operand,
and the list holds the ones before them, last first. -/
def group (first : Node) (operator : MathOperator) (right : Node) :
    List (MathOperator × Node) → Parse Node
  | [] => build (.math operator first right (first.location.through right.location))
  | (previous, left) :: rest => do
      let right ← build (.math operator left right (left.location.through right.location))
      group first previous right rest

def groupChain (first : Node) : List (MathOperator × Node) → Parse Node
  | [] => return first
  | (operator, right) :: rest => group first operator right rest

def formOf : Keyword → StatementForm
  | .mainWord => .main
  | .typeWord => .type
  | .letWord => .binding
  | .funWord | .funcWord => .function
  | .returnWord => .result

def enterMain (token : Token) : Parse Unit := do
  match ← entryPoint with
  | some _ => fail (.duplicateEntry token.position)
  | none => rememberEntry token.location

/-- The value of a main declaration: a bare name stands for a call without arguments. -/
def calledValue (value : Node) : Parse Node :=
  match value with
  | .identifier _ location => build (.application .call value [] location)
  | _ => return value

def blockOf (opening : Token) (statements : Parse (List Node × Location)) : Parse Node := do
  let (body, closing) ← statements
  build (.block body (opening.location.through closing))

def statementOf (form : StatementForm) (head : Token) (value : Parse Node) : Parse Node := do
  let value ← value
  build (.statement form value (head.location.through value.location))

/-- What an operand becomes with the bar or the equals sign behind it: the first member of a union,
or the left side of an assignment whose right side `expression` reads from its first token. -/
def binding (sign : Operator) (left : Node) (expression : Token → Parse Node) : Parse Node :=
  if sign = .union then union left
  else do
    let right ← expression (← next)
    build (.assignment left right (left.location.through right.location))

def takeOperator : Parse (Option Operator) := do
  return (← takeIf (·.kind.operator?.isSome)).bind (·.kind.operator?)

mutual
def statementWith : Nat → Token → Parse Node
  | 0, _ => unexpectedEnd
  | fuel + 1, head =>
      match head.kind with
      | .keyword .mainWord => do
          enterMain head
          statementOf .main head (do calledValue (← expressionWith fuel (← next)))
      | .keyword word =>
          statementOf (formOf word) head (do expressionWith fuel (← next))
      | .openBrace => blockOf head (blockStatementsWith fuel head.position)
      | _ => unexpected head

/-- The statements of a block up to its closing brace, and the location of the brace.  `opening` is
where the block was opened. -/
def blockStatementsWith : Nat → Position → Parse (List Node × Location)
  | 0, opening => fail (.incomplete opening)
  | fuel + 1, opening => do
      match ← advance with
      | none => fail (.incomplete opening)
      | some token =>
          match token.kind with
          | .closeBrace => return ([], token.location)
          | .keyword .typeWord | .keyword .letWord | .keyword .returnWord =>
              let first ← (statementWith fuel token).mapError (.insideBlock opening)
              let (rest, closing) ← blockStatementsWith fuel opening
              return (first :: rest, closing)
          | _ => fail (.incomplete opening)

def expressionWith : Nat → Token → Parse Node
  | 0, _ => unexpectedEnd
  | fuel + 1, head =>
      if head.kind = .openBrace then blockOf head (blockStatementsWith fuel head.position)
      else do
        let (first, rest) ← chainWith fuel (← operand head) []
        groupChain first rest

/-- The chain that goes on behind a first operand and further ones, last first.  A block ends it,
and so does an operand that a bar or an equals sign binds. -/
def chainWith : Nat → Node → List (MathOperator × Node) →
    Parse (Node × List (MathOperator × Node))
  | 0, first, found => return (first, found)
  | fuel + 1, first, found => do
      match ← takeOperator with
      | none => return (first, found)
      | some sign =>
          match MathOperator.ofOperator? sign with
          | some operator =>
              let head ← next
              if head.kind = .openBrace then
                let right ← blockOf head (blockStatementsWith fuel head.position)
                return (first, (operator, right) :: found)
              else
                let right ← operand head
                chainWith fuel first ((operator, right) :: found)
          | none =>
              match found with
              | (operator, left) :: earlier =>
                  let bound ← binding sign left (expressionWith fuel)
                  return (first, (operator, bound) :: earlier)
              | [] =>
                  let bound ← binding sign first (expressionWith fuel)
                  return (bound, [])
end

def headFuel : Parse Nat := return 2 * (← ahead) + 1

def statement (head : Token) : Parse Node := do statementWith (← headFuel) head

/-- The expression that starts with a token, which has been taken.  A token behind it that cannot
continue it stays ahead. -/
def expression (head : Token) : Parse Node := do expressionWith (← headFuel) head

def block (opening : Token) : Parse Node := do
  blockOf opening (blockStatementsWith (← headFuel) opening.position)

end SprigCompiler.Parse
