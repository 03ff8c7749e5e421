import SprigCompiler.Token.Tokenize
import SprigCompiler.Tree.Node

/-!
Why a text is no program.
-/

namespace SprigCompiler

inductive ParseError where
  | lexical (error : LexicalError)
  | unexpectedToken (kind : TokenKind) (text : String) (position : Position)
  | unexpectedEnd (position : Position)
  | invalidNode (error : ValidationError)
  /-- A second main declaration, at its keyword. -/
  | duplicateEntry (position : Position)
  /-- A block that is not closed, at its opening brace. -/
  | incomplete (position : Position)
  deriving DecidableEq, Repr

namespace ParseError

def unexpected (token : Token) : ParseError :=
  unexpectedToken token.kind token.text token.position

def isIncomplete : ParseError → Bool
  | incomplete _ => true
  | _ => false

/-- Whether the tokens are at fault, rather than a character, a second entry point or an open
block. -/
def isGrammatical : ParseError → Bool
  | unexpectedToken _ _ _ | unexpectedEnd _ | invalidNode _ => true
  | _ => false

def position : ParseError → Position
  | lexical error => error.position
  | unexpectedToken _ _ position => position
  | unexpectedEnd position => position
  | invalidNode error => error.location.position
  | duplicateEntry position => position
  | incomplete position => position

def message : ParseError → String
  | lexical error => error.message
  | unexpectedToken kind text position =>
      "Syntax error: unexpected " ++ kind.name ++ " \"" ++ text ++ "\" at " ++ position.text
  | unexpectedEnd position => "Syntax error: unexpected end of input at " ++ position.text
  | invalidNode error => "Syntax error: " ++ error.message
  | duplicateEntry position =>
      "Syntax error: duplicate main declaration at " ++ position.text
  | incomplete position =>
      "Incomplete input: block opened at " ++ position.text ++ " is not closed"

/-- The error in words, and behind it the error that caused it, if there is one. -/
def causes (error : ParseError) : List String :=
  match error with
  | lexical cause => [error.message, cause.message]
  | invalidNode cause => [error.message, cause.message]
  | _ => [error.message]

/-- Inside a block, an end of the text means that the block is not closed. -/
def insideBlock (opening : Position) : ParseError → ParseError
  | unexpectedEnd _ => incomplete opening
  | error => error

end ParseError

end SprigCompiler
