import SprigCompiler.Parser.Program
import SprigCompiler.Tree.Text
import SprigCompiler.Javascript.Emission
import SprigCompiler.Text.Diagnostic

/-!
From the text of a program to JavaScript.
-/

namespace SprigCompiler

structure Compiled where
  tree : Node
  javascript : String

inductive CompileError where
  | parse (error : ParseError)
  | inputOutput (reason : String)
  /-- The tree has a shape that has no JavaScript.  No tree that is read from a text does. -/
  | shapeless
  deriving DecidableEq, Repr

namespace CompileError

def message : CompileError → String
  | parse error => error.message
  | inputOutput reason => reason
  | shapeless => "the tree has no JavaScript"

/-- The errors behind the error in words, the nearest one first. -/
def causes : CompileError → List String
  | parse error => error.causes
  | inputOutput reason => [reason]
  | shapeless => []

end CompileError

def compile (content : String) : Except CompileError Compiled :=
  match parse content with
  | .error error => .error (.parse error)
  | .ok tree =>
      match tree.javascript? with
      | some javascript => .ok ⟨tree, javascript⟩
      | none => .error .shapeless

def renderError (color : Bool) (content : String) (error : ParseError) : String :=
  (Diagnostic.mk error.message error.position).render color (.ofString content)

end SprigCompiler
