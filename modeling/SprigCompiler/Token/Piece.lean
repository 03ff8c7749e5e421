import SprigCompiler.Token.Basic

/-!
Cutting a text into pieces.

From left to right, each piece is the longest start of the rest that is a string, a number, a word,
a sign, a run of blanks or a line break; a character with which none of these starts is a piece of
its own, a stray one.  A string runs to the next quote, or to the end of the text if there is none.
-/

namespace SprigCompiler

inductive PieceKind where
  | string
  | number
  | word
  | sign (kind : TokenKind)
  | blank
  | lineBreak
  | stray (character : Char)
  deriving DecidableEq, Repr

structure Piece where
  kind : PieceKind
  characters : List Char
  first : Place
  last : Place
  deriving DecidableEq, Repr

namespace Piece

def isNumberCharacter (character : Char) : Bool := character.isDigit || character == '.'

def isWordCharacter (character : Char) : Bool := character.isAlpha || character == '_'

def isBlankCharacter (character : Char) : Bool := character == ' ' || character == '\t'

/-- A piece that goes on for as long as a condition holds: its kind, its characters behind the
first one, and the rest of the text. -/
def run (kind : PieceKind) (condition : Char → Bool) (rest : List Char) :
    PieceKind × List Char × List Char :=
  (kind, rest.takeWhile condition, rest.dropWhile condition)

/-- A string behind its opening quote: up to the next quote, which belongs to it, or to the end. -/
def string (rest : List Char) : PieceKind × List Char × List Char :=
  let inside := rest.takeWhile (· ≠ '"')
  match rest.dropWhile (· ≠ '"') with
  | [] => (.string, inside, [])
  | quote :: behind => (.string, inside ++ [quote], behind)

/-- A piece that starts with a plus or a minus: a number if one follows, otherwise the sign. -/
def signed (kind : TokenKind) (rest : List Char) : PieceKind × List Char × List Char :=
  match rest with
  | next :: _ =>
      if isNumberCharacter next then run .number isNumberCharacter rest
      else (.sign kind, [], rest)
  | [] => (.sign kind, [], rest)

def carriageReturn (rest : List Char) : PieceKind × List Char × List Char :=
  match rest with
  | next :: behind =>
      if next = '\n' then (.lineBreak, [next], behind) else (.stray '\r', [], rest)
  | [] => (.stray '\r', [], rest)

/-- The piece that starts with the character `first` before `rest`: its kind, its characters
behind the first one, and the rest of the text. -/
def split (first : Char) (rest : List Char) : PieceKind × List Char × List Char :=
  if first = '"' then string rest
  else if isNumberCharacter first then run .number isNumberCharacter rest
  else if isWordCharacter first then run .word isWordCharacter rest
  else if isBlankCharacter first then run .blank isBlankCharacter rest
  else if first = '\n' then (.lineBreak, [], rest)
  else if first = '\r' then carriageReturn rest
  else if first = '+' then signed (.operator .plus) rest
  else if first = '-' then signed (.operator .minus) rest
  else match TokenKind.ofSign? first with
    | some kind => (.sign kind, [], rest)
    | none => (.stray first, [], rest)

/-- No character is lost between a piece and the rest. -/
theorem split_append (first : Char) (rest : List Char) :
    (split first rest).2.1 ++ (split first rest).2.2 = rest := by
  have runAppend : ∀ (kind : PieceKind) (condition : Char → Bool),
      (run kind condition rest).2.1 ++ (run kind condition rest).2.2 = rest := by
    intro kind condition
    exact List.takeWhile_append_dropWhile
  have stringAppend : (string rest).2.1 ++ (string rest).2.2 = rest := by
    have whole : rest.takeWhile (· ≠ '"') ++ rest.dropWhile (· ≠ '"') = rest :=
      List.takeWhile_append_dropWhile
    unfold string
    cases behind : rest.dropWhile (· ≠ '"') with
    | nil =>
        rw [behind] at whole
        exact whole
    | cons quote more =>
        rw [behind] at whole
        exact (List.append_assoc _ _ _).trans whole
  have signedAppend : ∀ kind : TokenKind,
      (signed kind rest).2.1 ++ (signed kind rest).2.2 = rest := by
    intro kind
    unfold signed
    split
    · split
      · exact runAppend .number isNumberCharacter
      · rfl
    · rfl
  have returnAppend : (carriageReturn rest).2.1 ++ (carriageReturn rest).2.2 = rest := by
    unfold carriageReturn
    split
    · split <;> rfl
    · rfl
  unfold split
  repeat' split
  all_goals first
    | exact stringAppend
    | exact runAppend _ _
    | exact returnAppend
    | exact signedAppend _
    | rfl

theorem length_split_le (first : Char) (rest : List Char) :
    (split first rest).2.2.length ≤ rest.length := by
  have whole := congrArg List.length (split_append first rest)
  rw [List.length_append] at whole
  omega

def cut (place : Place) : List Char → List Piece
  | [] => []
  | first :: rest =>
      let characters := first :: (split first rest).2.1
      let next := place.afterAll characters
      ⟨(split first rest).1, characters, place, next⟩ :: cut next (split first rest).2.2
termination_by characters => characters.length
decreasing_by
  have shorter := length_split_le first rest
  simp only [List.length_cons]
  omega

def location (piece : Piece) : Location := piece.first.upTo piece.last

def isBoundary (piece : Piece) : Bool := piece.kind == .blank || piece.kind == .lineBreak

def stray? (piece : Piece) : Option Char :=
  match piece.kind with
  | .stray character => some character
  | _ => none

end Piece

end SprigCompiler
