import SprigCompiler.Parser.Statement

/-!
Programs: statements up to the end of the text.
-/

namespace SprigCompiler

namespace Parse

def statements : Nat → Parse (List Node)
  | 0 => return []
  | count + 1 => do
      match ← advance with
      | none => return []
      | some token =>
          let first ← statement token
          let rest ← statements count
          return first :: rest

/-- A program: the statements up to the end of the text, at the location of the whole text. -/
def program : Parse Node := do
  let body ← statements (← ahead)
  build (.program body (← extent))

end Parse

def parse (content : String) : Except ParseError Node :=
  match Parser.ofSource? (.ofString content) with
  | .error error => .error (.lexical error)
  | .ok parser => (Parse.program parser).1

end SprigCompiler
