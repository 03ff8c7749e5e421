import SprigCompiler.Shell.Session

/-!
The command line.

`sprig FILE` compiles a file; without a file the shell starts.  The arguments are read from left to
right, and the first request for help or for the version is answered at once.
-/

namespace SprigCompiler.CommandLine

structure Switches where
  showTree : Bool := false
  noColor : Bool := false
  deriving DecidableEq, Repr

inductive Command where
  | help
  | version
  | compileFile (path : String) (switches : Switches)
  | shell (switches : Switches)
  | misused (argument : String)
  deriving DecidableEq, Repr

def finish (switches : Switches) : Option String → Command
  | some path => .compileFile path switches
  | none => .shell switches

def readFiles (switches : Switches) : Option String → List String → Command
  | file?, [] => finish switches file?
  | none, argument :: rest => readFiles switches (some argument) rest
  | some _, argument :: _ => .misused argument

/-- Reads arguments.  Behind two dashes there are no options, and a single dash is none.  Letters
behind one dash are options run together, of which the first is answered. -/
def read (switches : Switches) (file? : Option String) : List String → Command
  | [] => finish switches file?
  | argument :: rest =>
      if argument = "--help" ∨ argument.startsWith "-h" then .help
      else if argument = "--version" ∨ argument.startsWith "-V" then .version
      else if argument = "--ast" then read { switches with showTree := true } file? rest
      else if argument = "--no-color" then read { switches with noColor := true } file? rest
      else if argument = "--" then readFiles switches file? rest
      else if argument.startsWith "-" ∧ argument ≠ "-" then .misused argument
      else match file? with
        | none => read switches (some argument) rest
        | some _ => .misused argument

structure Outcome where
  code : Nat
  output : String
  errors : String
  deriving DecidableEq, Repr

def versionText : String := "sprig 0.1.0\n"

def helpText : String :=
  "Compiles Sprig programs to JavaScript\n\n" ++
  "Usage: sprig [OPTIONS] [FILE]\n\n" ++
  "Arguments:\n" ++
  "  [FILE]  Program to compile. Starts the interactive shell when omitted\n\n" ++
  "Options:\n" ++
  "      --ast       Dump the syntax tree to stderr\n" ++
  "      --no-color  Disable colored diagnostics\n" ++
  "  -h, --help      Print help\n" ++
  "  -V, --version   Print version\n"

def misusedText (argument : String) : String :=
  "error: unexpected argument '" ++ argument ++ "' found\n\n" ++
  "Usage: sprig [OPTIONS] [FILE]\n\n" ++
  "For more information, try '--help'.\n"

inductive FileReading where
  | bytes (content : List UInt8)
  | failed (reason : String)
  deriving DecidableEq, Repr

def contentOf : FileReading → Except CompileError String
  | .failed reason => .error (.inputOutput reason)
  | .bytes content =>
      match Shell.decode? content with
      | some text => .ok text
      | none => .error (.inputOutput Shell.notText)

def compileFile (color showTree : Bool) (path : String) (reading : FileReading) : Outcome :=
  match contentOf reading with
  | .error error => ⟨1, "", path ++ ": " ++ error.message ++ "\n"⟩
  | .ok content =>
      match compile content with
      | .ok compiled =>
          ⟨0, compiled.javascript, if showTree then compiled.tree.text ++ "\n" else ""⟩
      | .error (.parse error) => ⟨1, "", renderError color content error⟩
      | .error error => ⟨1, "", path ++ ": " ++ error.message ++ "\n"⟩

def runShell (options : Shell.Options) (input : List UInt8) : Outcome :=
  let events := Shell.session options [input]
  let written := Shell.writings events
  let output := String.join (written.map (·.output))
  let errors := String.join (written.map (·.errors))
  match Shell.failure? events with
  | none => ⟨0, output, errors⟩
  | some reason => ⟨1, output, errors ++ reason ++ "\n"⟩

/-- Runs the program.  `color` says whether the terminal shows colours, `file` what the system says
about a file, and `input` what can be read from the standard input. -/
def run (color : Bool) (file : String → FileReading) (input : List UInt8)
    (arguments : List String) : Outcome :=
  match read {} none arguments with
  | .help => ⟨0, helpText, ""⟩
  | .version => ⟨0, versionText, ""⟩
  | .misused argument => ⟨2, "", misusedText argument⟩
  | .compileFile path switches =>
      compileFile (color && !switches.noColor) switches.showTree path (file path)
  | .shell switches => runShell ⟨switches.showTree, color && !switches.noColor⟩ input

end SprigCompiler.CommandLine
