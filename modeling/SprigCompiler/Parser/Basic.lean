import SprigCompiler.Parser.Error
import SprigCompiler.Text.Source
import SprigCompiler.Token.Cursor

/-!
Parsers, and the steps that they take.

A parser remembers where it stands among the tokens and whether it has met a main declaration.  It
keeps this memory when a step fails, so that the next step goes on from there.
-/

namespace SprigCompiler

/-- A text, a cursor over its tokens, and where the main declaration started once it was seen. -/
structure Parser where
  source : Source
  cursor : Cursor
  entryPoint : Option Location

namespace Parser

def ofTokens (source : Source) (tokens : List Token) : Parser := ⟨source, .ofList tokens, none⟩

def ofSource? (source : Source) : Except LexicalError Parser :=
  match Token.ofText? true source.content with
  | .ok tokens => .ok (ofTokens source tokens)
  | .error error => .error error

end Parser

def Parse (Result : Type) : Type := Parser → Except ParseError Result × Parser

namespace Parse

protected def pure {Result : Type} (result : Result) : Parse Result :=
  fun parser => (.ok result, parser)

/-- One step after another.  A failing step is the last one. -/
protected def bind {First Second : Type} (step : Parse First) (next : First → Parse Second) :
    Parse Second :=
  fun parser =>
    match step parser with
    | (.ok result, behind) => next result behind
    | (.error error, behind) => (.error error, behind)

instance : Monad Parse where
  pure := Parse.pure
  bind := Parse.bind

def fail {Result : Type} (error : ParseError) : Parse Result :=
  fun parser => (.error error, parser)

def mapError {Result : Type} (change : ParseError → ParseError) (step : Parse Result) :
    Parse Result :=
  fun parser =>
    match step parser with
    | (.ok result, behind) => (.ok result, behind)
    | (.error error, behind) => (.error (change error), behind)

def unexpected {Result : Type} (token : Token) : Parse Result := fail (.unexpected token)

def unexpectedEnd {Result : Type} : Parse Result :=
  fun parser => (.error (.unexpectedEnd parser.source.endPosition), parser)

def cursor : Parse Cursor := fun parser => (.ok parser.cursor, parser)

def advance : Parse (Option Token) :=
  fun parser =>
    let (token, cursor) := parser.cursor.advance
    (.ok token, { parser with cursor := cursor })

def next : Parse Token := do
  match ← advance with
  | some token => return token
  | none => unexpectedEnd

def retreat : Parse Unit :=
  fun parser => (.ok (), { parser with cursor := parser.cursor.retreat })

/-- Takes the next token if there is one and it meets a condition, and puts any other back. -/
def takeIf (condition : Token → Bool) : Parse (Option Token) := do
  match ← advance with
  | none => return none
  | some token =>
      if condition token then return some token
      else do
        retreat
        return none

def peekKind : Parse (Option TokenKind) :=
  fun parser => (.ok (parser.cursor.peek.map Token.kind), parser)

def ahead : Parse Nat := fun parser => (.ok parser.cursor.ahead, parser)

def entryPoint : Parse (Option Location) := fun parser => (.ok parser.entryPoint, parser)

def rememberEntry (location : Location) : Parse Unit :=
  fun parser => (.ok (), { parser with entryPoint := some location })

def extent : Parse Location := fun parser => (.ok parser.source.extent, parser)

/-- Gives a node whose children are admissible, and fails otherwise. -/
def build (node : Node) : Parse Node :=
  match node.checked with
  | .ok node => Parse.pure node
  | .error error => fail (.invalidNode error)

end Parse

end SprigCompiler
