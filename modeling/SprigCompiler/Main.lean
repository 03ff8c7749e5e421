import SprigCompiler.CommandLine

/-!
The program itself: arguments, files and streams.
-/

namespace SprigCompiler.Program

open CommandLine

def reasonOf : IO.Error → String
  | .noFileOrDirectory .. => "No such file or directory (os error 2)"
  | .inappropriateType .. => "Is a directory (os error 21)"
  | error => toString error

def readFile (path : String) : IO FileReading := do
  try
    let content ← IO.FS.readBinFile path
    return .bytes content.toList
  catch error => return .failed (reasonOf error)

def finish (outcome : Outcome) : IO UInt32 := do
  IO.print outcome.output
  IO.eprint outcome.errors
  return UInt32.ofNat outcome.code

/-- Reads the bytes of a line with its newline, behind those already read. -/
partial def readLine (input : IO.FS.Stream) (line : Array UInt8) : IO (List UInt8) := do
  let read ← input.read 1
  match read.toList with
  | [] => return line.toList
  | byte :: _ =>
      if byte = Shell.newline then return (line.push byte).toList
      else readLine input (line.push byte)

/-- Talks to the user from some pending lines on. -/
partial def talk (options : Shell.Options) (input : IO.FS.Stream) (pending : String) :
    IO UInt32 := do
  IO.print (Shell.prompt pending)
  (← IO.getStdout).flush
  let bytes ← readLine input #[]
  if bytes.isEmpty then
    IO.print "\n"
    return 0
  match Shell.decode? bytes with
  | none =>
      IO.eprintln Shell.notText
      return 1
  | some line =>
      match Shell.takeLine options pending line with
      | .quit => return 0
      | .next pending output errors =>
          IO.print output
          IO.eprint errors
          talk options input pending

def showsColor : IO Bool := do
  match ← IO.getEnv "CLICOLOR_FORCE" with
  | some value => if value ≠ "0" then return true else (← IO.getStdout).isTty
  | none => (← IO.getStdout).isTty

end SprigCompiler.Program

open SprigCompiler CommandLine in
def main (arguments : List String) : IO UInt32 := do
  match CommandLine.read {} none arguments with
  | .help => Program.finish ⟨0, helpText, ""⟩
  | .version => Program.finish ⟨0, versionText, ""⟩
  | .misused argument => Program.finish ⟨2, "", misusedText argument⟩
  | .compileFile path switches =>
      let color := (← Program.showsColor) && !switches.noColor
      Program.finish (compileFile color switches.showTree path (← Program.readFile path))
  | .shell switches =>
      let color := (← Program.showsColor) && !switches.noColor
      Program.talk ⟨switches.showTree, color⟩ (← IO.getStdin) ""
