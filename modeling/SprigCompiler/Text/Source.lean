import SprigCompiler.Text.Location

/-!
A text with an index of its lines.

The index holds where each line starts, so that a byte offset is found by halving the range of
lines that can hold it and then walking one line.  An offset inside the bytes of a character has
no position.
-/

namespace SprigCompiler

structure Line where
  start : Nat
  characters : List Char
  deriving DecidableEq, Repr

namespace Line

/-- The column that lies `bytes` bytes into the characters, if a character starts or the line
ends there. -/
def columnAt? (bytes : Nat) (column : Nat) : List Char → Option Nat
  | [] => if bytes = 0 then some column else none
  | character :: rest =>
      if bytes = 0 then some column
      else if character.utf8Size ≤ bytes then
        columnAt? (bytes - character.utf8Size) (column + 1) rest
      else none

/-- What is shown of a line: the carriage returns at its end belong to the line break. -/
def text (line : Line) : String :=
  String.ofList (line.characters.reverse.dropWhile (· = '\r')).reverse

end Line

/-- Cuts characters at their newlines.  `start` is where the current line began, `offset` where
the next character lies, and `current` holds the characters between them, last first. -/
def Line.cut (start offset : Nat) (current : List Char) : List Char → List Line
  | [] => [⟨start, current.reverse⟩]
  | character :: rest =>
      if character = '\n' then
        ⟨start, current.reverse⟩ :: Line.cut (offset + 1) (offset + 1) [] rest
      else
        Line.cut start (offset + character.utf8Size) (character :: current) rest

structure Source where
  content : String
  lines : Array Line

namespace Source

/-- Indexes the lines of a text.  There is one line more than there are newlines. -/
def ofString (content : String) : Source :=
  ⟨content, (Line.cut 0 0 [] content.toList).toArray⟩

def size (source : Source) : Nat := source.content.utf8ByteSize

def startsBy (source : Source) (offset index : Nat) : Bool :=
  match source.lines[index]? with
  | some line => line.start ≤ offset
  | none => false

/-- The last line from `low` up to but not including `high` that starts at or before `offset`,
given that line `low` does. -/
def lastLineFrom (source : Source) (offset low high : Nat) : Nat :=
  if low + 1 < high then
    let middle := (low + high) / 2
    if source.startsBy offset middle then source.lastLineFrom offset middle high
    else source.lastLineFrom offset low middle
  else low
termination_by high - low

/-- The position of the byte at `offset`, or of the end of the text for an offset beyond it.
An offset inside a character has none. -/
def position? (source : Source) (offset : Nat) : Option Position :=
  let within := min offset source.size
  let index := source.lastLineFrom within 0 source.lines.size
  match source.lines[index]? with
  | none => none
  | some line =>
      (Line.columnAt? (within - line.start) 0 line.characters).map fun column =>
        ⟨index + 1, column⟩

def location? (source : Source) (start stop : Nat) : Option Location :=
  (source.position? start).map fun position => ⟨position.line, position.column, start, stop⟩

def line? (source : Source) : Nat → Option String
  | 0 => none
  | index + 1 => source.lines[index]?.map Line.text

def endPosition (source : Source) : Position :=
  Position.origin.afterAll source.content.toList

def extent (source : Source) : Location :=
  Place.origin.upTo (Place.origin.afterAll source.content.toList)

end Source

end SprigCompiler
