import SprigCompiler.Text.Source

/-!
Messages about a place in a text.

A diagnostic shows its message, and below it the line in question with a caret under the column.
The caret's line repeats the gutter of the shown line with blanks for the number.
-/

namespace SprigCompiler

inductive Emphasis where
  /-- Red and bold: the word that announces an error, and the caret. -/
  | alarm
  | gutter
  deriving DecidableEq, Repr

namespace Emphasis

def codes : Emphasis → List Nat
  | .alarm => [31, 1]
  | .gutter => [34]

/-- One terminal control: the escape character, a bracket, a code and the letter m. -/
def control (code : Nat) : String := "\x1b[" ++ toString code ++ "m"

def paint (color : Bool) (emphasis : Emphasis) (text : String) : String :=
  if color then String.join (emphasis.codes.map control) ++ text ++ control 0 else text

end Emphasis

structure Diagnostic where
  message : String
  position : Position
  deriving DecidableEq, Repr

namespace Diagnostic

def blanks (count : Nat) : String := String.ofList (List.replicate count ' ')

def excerpt (color : Bool) (position : Position) (line : String) : String :=
  let number := toString position.line
  let bar := Emphasis.gutter.paint color "|"
  Emphasis.gutter.paint color number ++ " " ++ bar ++ " " ++ line ++ "\n" ++
    blanks number.length ++ " " ++ bar ++ " " ++ blanks position.column ++
    Emphasis.alarm.paint color "^" ++ "\n"

/-- The whole diagnostic.  A line that the text does not have is left out with its caret. -/
def render (color : Bool) (source : Source) (diagnostic : Diagnostic) : String :=
  Emphasis.alarm.paint color "ERROR:" ++ " " ++ diagnostic.message ++ "\n" ++
    match source.line? diagnostic.position.line with
    | some line => excerpt color diagnostic.position line
    | none => ""

end Diagnostic

end SprigCompiler
