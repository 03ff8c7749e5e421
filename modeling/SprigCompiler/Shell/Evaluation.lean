import SprigCompiler.Compile
import SprigCompiler.Text.Blank

/-!
What the shell says to one input.

Every input is compiled by itself.  An input with an open block is not finished: nothing is said to
it, and more lines may follow.
-/

namespace SprigCompiler.Shell

structure Options where
  showTree : Bool
  color : Bool
  deriving DecidableEq, Repr

structure Answer where
  finished : Bool
  output : String
  errors : String
  deriving DecidableEq, Repr

/-- The characters without the prelude in front of them, however often it stands there. -/
def withoutPrelude (characters : List Char) : List Char :=
  if prelude.toList.isPrefixOf characters then
    withoutPrelude (characters.drop prelude.toList.length)
  else characters
termination_by characters.length
decreasing_by
  rename_i starts
  have shorter := (List.isPrefixOf_iff_prefix.mp starts).length_le
  have positive : 0 < prelude.toList.length := by decide
  rw [List.length_drop]
  omega

def statementsOf (javascript : String) : String :=
  String.ofList (trim (withoutPrelude javascript.toList))

def lineUnlessEmpty (text : String) : String := if text.isEmpty then "" else text ++ "\n"

def evaluate (options : Options) (input : String) : Answer :=
  match compile input with
  | .ok compiled =>
      { finished := true
        output := lineUnlessEmpty (statementsOf compiled.javascript)
        errors := if options.showTree then compiled.tree.text ++ "\n" else "" }
  | .error (.parse error) =>
      if error.isIncomplete then { finished := false, output := "", errors := "" }
      else { finished := true, output := "", errors := renderError options.color input error }
  | .error error => { finished := true, output := "", errors := error.message ++ "\n" }

end SprigCompiler.Shell
