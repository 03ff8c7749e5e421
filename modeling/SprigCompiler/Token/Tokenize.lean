import SprigCompiler.Token.Piece
import SprigCompiler.Text.Quoted

/-!
From a text to its tokens.

Blanks and line breaks are no tokens; they only decide whether the word before them is reserved.
A stray character is an error when reading strictly.  Otherwise it is skipped, and the word before
it is judged by what follows it.
-/

namespace SprigCompiler

structure LexicalError where
  character : Char
  position : Position
  deriving DecidableEq, Repr

namespace LexicalError

def message (error : LexicalError) : String :=
  "Syntax error: unexpected character " ++ Quoted.character error.character ++ " at " ++
    error.position.text

end LexicalError

namespace Token

/-- The kind and text of a piece, if it is a token; `finished` says whether a word would be
finished. -/
def reading? (finished : Bool) (piece : Piece) : Option (TokenKind × String) :=
  let text := String.ofList piece.characters
  match piece.kind with
  | .string => some (.string, String.ofList (piece.characters.tail.takeWhile (· ≠ '"')))
  | .number => some (.number, text)
  | .word => some (.ofWord text finished, text)
  | .sign kind => some (kind, text)
  | .blank | .lineBreak | .stray _ => none

def isFinishedBefore : List Piece → Bool
  | [] => true
  | next :: _ => next.isBoundary

def ofPieces : List Piece → List Token
  | [] => []
  | piece :: rest =>
      match reading? (isFinishedBefore rest) piece with
      | some (kind, text) => ⟨kind, text, piece.location⟩ :: ofPieces rest
      | none => ofPieces rest

def firstStray? (pieces : List Piece) : Option LexicalError :=
  pieces.findSome? fun piece => piece.stray?.map (⟨·, piece.first.position⟩)

def ofText? (strict : Bool) (content : String) : Except LexicalError (List Token) :=
  let pieces := Piece.cut .origin content.toList
  match if strict then firstStray? pieces else none with
  | some error => .error error
  | none => .ok (ofPieces (pieces.filter (·.stray?.isNone)))

end Token

end SprigCompiler
