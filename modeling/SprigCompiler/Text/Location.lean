/-!
Positions and locations in a text.

A position is what a reader sees: lines counted from one, columns counted from zero in
characters.  A location adds the bytes that a piece of the text covers.  A place is where a
left-to-right walk over the characters stands; it knows both countings.
-/

namespace SprigCompiler

/-- Where a reader finds a character: its line, from one, and its column, from zero. -/
structure Position where
  line : Nat
  column : Nat
  deriving DecidableEq, Repr

namespace Position

def origin : Position := ⟨1, 0⟩

/-- The position behind a character: a newline opens the next line, any other character is one
column wide. -/
def after (position : Position) (character : Char) : Position :=
  if character = '\n' then ⟨position.line + 1, 0⟩ else ⟨position.line, position.column + 1⟩

def afterAll (position : Position) (characters : List Char) : Position :=
  characters.foldl after position

def text (position : Position) : String :=
  toString position.line ++ ":" ++ toString position.column

end Position

/-- Where a piece of a text starts, and the bytes `start` up to but not including `stop` that
it covers. -/
structure Location where
  line : Nat
  column : Nat
  start : Nat
  stop : Nat
  deriving DecidableEq, Repr

namespace Location

def position (location : Location) : Position := ⟨location.line, location.column⟩

/-- The location that starts with the first and ends where the later of the two ends. -/
def through (first last : Location) : Location :=
  { first with stop := max last.stop first.stop }

def text (location : Location) : String := location.position.text

end Location

structure Place where
  position : Position
  offset : Nat
  deriving DecidableEq, Repr

namespace Place

def origin : Place := ⟨.origin, 0⟩

def after (place : Place) (character : Char) : Place :=
  ⟨place.position.after character, place.offset + character.utf8Size⟩

def afterAll (place : Place) (characters : List Char) : Place :=
  characters.foldl after place

def upTo (first last : Place) : Location :=
  ⟨first.position.line, first.position.column, first.offset, last.offset⟩

end Place

end SprigCompiler
