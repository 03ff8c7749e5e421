import SprigCompiler.Parser.Basic
import SprigCompiler.Number.Decimal

/-!
Operands: literals, names, and names with arguments.

Arguments stand behind a name either in a row or between delimiters with commas.  What the name
means then follows from the tokens before it: directly behind `type` and `fun` the arguments are
parameters; elsewhere they are applied, to a type if the nearest keyword or brace before the name is
`type`, and to a function if it is not.
-/

namespace SprigCompiler.Parse

def literal (token : Token) : Parse Node :=
  match token.kind with
  | .string => return .string token.text token.location
  | .number =>
      match Decimal.read? token.text.toList with
      | some value => return .number value token.location
      | none => unexpected token
  | .boolean => return .boolean (token.text == "true") token.location
  | _ => unexpected token

def atom (token : Token) : Parse Node :=
  match token.kind with
  | .identifier => return .identifier token.text token.location
  | _ => literal token

/-- What an application means whose name is the token taken last. -/
def formBehind (cursor : Cursor) : ApplicationForm :=
  match cursor.currentIndex with
  | none => .call
  | some index =>
      let previous :=
        match index with
        | 0 => none
        | before + 1 => (cursor.get before).map Token.kind
      let enclosing := cursor.lookBehind index fun token =>
        token.kind.isKeyword || token.kind == .openBrace || token.kind == .closeBrace
      match previous with
      | some (.keyword .typeWord) => .typeParameters
      | some (.keyword .funWord) => .functionParameters
      | some (.keyword .funcWord) => .functionParameters
      | _ =>
          match enclosing.map Token.kind with
          | some (.keyword .typeWord) => .instantiation
          | _ => .call

/-- The delimiter that ends a list of arguments opened by a token.  Angles open one only where
types are applied or declared. -/
def closingFor? (form : ApplicationForm) (opening : Option TokenKind) : Option TokenKind :=
  match opening with
  | some .openParen => some .closeParen
  | some .openAngle =>
      match form with
      | .typeParameters | .instantiation => some .closeAngle
      | .functionParameters | .call => none
  | _ => none

def argumentRow : Nat → Parse (List Node)
  | 0 => return []
  | count + 1 => do
      match ← takeIf (·.kind.isAtom) with
      | none => return []
      | some token =>
          let argument ← atom token
          let rest ← argumentRow count
          return argument :: rest

def argumentsUpTo (closing : TokenKind) : Nat → Parse (List Node × Location)
  | 0 => unexpectedEnd
  | count + 1 => do
      let token ← next
      if token.kind.isAtom then
        let argument ← atom token
        let separator ← next
        if separator.kind = closing then return ([argument], separator.location)
        else if separator.kind = .comma then
          let (rest, last) ← argumentsUpTo closing count
          return (argument :: rest, last)
        else unexpected separator
      else unexpected token

def delimitedArguments (closing : TokenKind) : Parse (List Node × Location) := do
  let _opening ← next
  match ← takeIf (·.kind == closing) with
  | some token => return ([], token.location)
  | none => argumentsUpTo closing (← ahead)

def named (head : Token) : Parse Node := do
  let form := formBehind (← cursor)
  let name := Node.identifier head.text head.location
  match closingFor? form (← peekKind) with
  | some closing =>
      let (arguments, last) ← delimitedArguments closing
      build (.application form name arguments (head.location.through last))
  | none =>
      let arguments ← argumentRow (← ahead)
      match arguments.getLast? with
      | none => return name
      | some last => build (.application form name arguments (head.location.through last.location))

def operand (head : Token) : Parse Node :=
  match head.kind with
  | .identifier => named head
  | .string | .number | .boolean => literal head
  | _ => unexpected head

/-- Whether a token ends a union where a member could stand: a keyword and a closing brace do. -/
def endsUnion (token : Token) : Bool := token.kind.isKeyword || token.kind == .closeBrace

/-- The members of a union behind a bar, among at most `count` tokens.  The union may also end
directly behind a bar. -/
def unionMembers : Nat → Parse (List Node)
  | 0 => return []
  | count + 1 => do
      match ← takeIf (!endsUnion ·) with
      | none => return []
      | some token =>
          let member ← operand token
          match ← takeIf (·.isOperator .union) with
          | none => return [member]
          | some _ =>
              let rest ← unionMembers count
              return member :: rest

def union (first : Node) : Parse Node := do
  let members ← unionMembers (← ahead)
  let last := (members.getLast?).getD first
  build (.union (first :: members) (first.location.through last.location))

end SprigCompiler.Parse
