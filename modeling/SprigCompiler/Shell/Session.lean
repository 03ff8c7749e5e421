import SprigCompiler.Shell.Evaluation

/-!
Sessions of the shell.

The shell prompts, reads a line, and evaluates the lines that are pending together with it.  They
stay pending while they hold an open block.  Input comes in chunks of bytes that need not end where
lines do; the events of a session tell what was written, and when a chunk was handed over.
-/

namespace SprigCompiler.Shell

def prompt (pending : String) : String := if pending.isEmpty then ">>> " else "... "

inductive Turn where
  | next (pending output errors : String)
  | quit
  deriving DecidableEq, Repr

/-- Takes a line to the pending ones.  Between inputs the line `:quit` leaves and blank lines are
dropped. -/
def takeLine (options : Options) (pending line : String) : Turn :=
  if pending.isEmpty ∧ trim line.toList = ":quit".toList then .quit
  else
    let input := pending ++ line
    if (trim input.toList).isEmpty then .next "" "" ""
    else
      let answer := evaluate options input
      .next (if answer.finished then "" else input) answer.output answer.errors

/-- The bytes that one read gives, and how many chunks it needed to be handed.  No bytes mean that
the input has ended. -/
structure Reading where
  handed : Nat
  bytes : List UInt8
  deriving DecidableEq, Repr

inductive Signal where
  | chunk
  | byte (value : UInt8)
  deriving DecidableEq, Repr

def signals (chunks : List (List UInt8)) : List Signal :=
  chunks.flatMap fun chunk => .chunk :: chunk.map .byte

def newline : UInt8 := 10

/-- The reads that use up some signals: one for each line with its newline, one for what is left
behind the last newline, and one at the end.  `handed` chunks and the bytes `current`, last first,
belong to the read at hand. -/
def readings (handed : Nat) (current : List UInt8) : List Signal → List Reading
  | [] => if current.isEmpty then [⟨handed, []⟩] else [⟨handed, current.reverse⟩, ⟨0, []⟩]
  | .chunk :: rest => readings (handed + 1) current rest
  | .byte value :: rest =>
      if value = newline then ⟨handed, (value :: current).reverse⟩ :: readings 0 [] rest
      else readings handed (value :: current) rest

inductive Event where
  | output (text : String)
  | errors (text : String)
  | handed
  | failed (reason : String)
  deriving DecidableEq, Repr

def decode? (bytes : List UInt8) : Option String := String.fromUTF8? ⟨bytes.toArray⟩

def notText : String := "stream did not contain valid UTF-8"

def eventsOf (options : Options) (pending : String) : List Reading → List Event
  | [] => []
  | reading :: rest =>
      .output (prompt pending) :: (List.replicate reading.handed .handed ++
        if reading.bytes.isEmpty then [.output "\n"]
        else match decode? reading.bytes with
          | none => [.failed notText]
          | some line =>
              match takeLine options pending line with
              | .quit => []
              | .next pending output errors =>
                  .output output :: .errors errors :: eventsOf options pending rest)

def session (options : Options) (chunks : List (List UInt8)) : List Event :=
  eventsOf options "" (readings 0 [] (signals chunks))

structure Writing where
  output : String
  errors : String
  deriving DecidableEq, Repr

/-- What was written in one event after another, cut where chunks were handed over. -/
def writings : List Event → List Writing
  | [] => [⟨"", ""⟩]
  | .handed :: rest => ⟨"", ""⟩ :: writings rest
  | .failed _ :: rest => writings rest
  | .output text :: rest =>
      match writings rest with
      | first :: others => { first with output := text ++ first.output } :: others
      | [] => [⟨text, ""⟩]
  | .errors text :: rest =>
      match writings rest with
      | first :: others => { first with errors := text ++ first.errors } :: others
      | [] => [⟨"", text⟩]

def failure? (events : List Event) : Option String :=
  events.findSome? fun
    | .failed reason => some reason
    | _ => none

end SprigCompiler.Shell
