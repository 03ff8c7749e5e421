import SprigCompiler.Text.Location

/-!
Tokens: the words and signs of a Sprig program.
-/

namespace SprigCompiler

/-- The reserved words.  `func` is an older spelling of `fun`. -/
inductive Keyword where
  | mainWord
  | typeWord
  | letWord
  | funWord
  | funcWord
  | returnWord
  deriving DecidableEq, Repr

namespace Keyword

def ofWord? (word : String) : Option Keyword :=
  if word = "main" then some mainWord
  else if word = "type" then some typeWord
  else if word = "let" then some letWord
  else if word = "fun" then some funWord
  else if word = "func" then some funcWord
  else if word = "return" then some returnWord
  else none

def isFun : Keyword → Bool
  | funWord | funcWord => true
  | _ => false

end Keyword

inductive Operator where
  | assign
  | union
  | plus
  | minus
  | asterisk
  | slash
  deriving DecidableEq, Repr

inductive TokenKind where
  | keyword (word : Keyword)
  | operator (sign : Operator)
  | identifier
  | boolean
  | number
  | string
  | openBrace
  | closeBrace
  | openParen
  | closeParen
  | openAngle
  | closeAngle
  | comma
  | whitespace
  | newline
  deriving DecidableEq, Repr

namespace TokenKind

def name : TokenKind → String
  | keyword _ => "keyword"
  | operator _ => "operator"
  | identifier => "identifier"
  | boolean => "boolean"
  | number => "number"
  | string => "string"
  | openBrace => "open-brace"
  | closeBrace => "close-brace"
  | openParen => "open-paren"
  | closeParen => "close-paren"
  | openAngle => "open-angle"
  | closeAngle => "close-angle"
  | comma => "comma"
  | whitespace => "whitespace"
  | newline => "newline"

def isLiteral : TokenKind → Bool
  | string | number | boolean => true
  | _ => false

def isKeyword : TokenKind → Bool
  | keyword _ => true
  | _ => false

def operator? : TokenKind → Option Operator
  | operator sign => some sign
  | _ => none

def isAtom (kind : TokenKind) : Bool := kind == identifier || kind.isLiteral

def ofSign? : Char → Option TokenKind
  | '=' => some (operator .assign)
  | '|' => some (operator .union)
  | '+' => some (operator .plus)
  | '-' => some (operator .minus)
  | '*' => some (operator .asterisk)
  | '/' => some (operator .slash)
  | '\x7b' => some openBrace
  | '\x7d' => some closeBrace
  | '(' => some openParen
  | ')' => some closeParen
  | '<' => some openAngle
  | '>' => some closeAngle
  | ',' => some comma
  | _ => none

/-- The kind of a word.  A word is only reserved when it is `finished`: when a blank, a line break
or the end of the text follows it. -/
def ofWord (word : String) (finished : Bool) : TokenKind :=
  if finished then
    match Keyword.ofWord? word with
    | some reserved => keyword reserved
    | none => if word = "true" ∨ word = "false" then boolean else identifier
  else identifier

end TokenKind

/-- A piece of a program with its meaning.  The text of a string is what stands between its quotes,
while its location includes them. -/
structure Token where
  kind : TokenKind
  text : String
  location : Location
  deriving DecidableEq, Repr

namespace Token

def position (token : Token) : Position := token.location.position

def isOperator (token : Token) (sign : Operator) : Bool := token.kind == .operator sign

end Token

end SprigCompiler
