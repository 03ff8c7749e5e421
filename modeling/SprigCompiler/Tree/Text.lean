import SprigCompiler.Tree.Node
import SprigCompiler.Number.Shortest

/-!
Trees as symbolic expressions.

A node with children is a list in parentheses: a tag, and behind it the children, each after one
blank.  A string stands between two quotes as it is.
-/

namespace SprigCompiler

namespace StatementForm

def tag : StatementForm → String
  | main => "main"
  | type => "type"
  | binding => "let"
  | function => "fun"
  | result => "return"

end StatementForm

namespace ApplicationForm

def tag : ApplicationForm → String
  | functionParameters => "fun-params"
  | typeParameters => "type-params"
  | call => "call"
  | instantiation => "new"

end ApplicationForm

namespace Node

mutual
def text : Node → String
  | program body _ => "(program" ++ textAll body ++ ")"
  | identifier name _ => name
  | statement form value _ => "(" ++ form.tag ++ " " ++ text value ++ ")"
  | block body _ => "(block" ++ textAll body ++ ")"
  | application form head arguments _ =>
      "(" ++ form.tag ++ " " ++ text head ++ textAll arguments ++ ")"
  | assignment left right _ => "(= " ++ text left ++ " " ++ text right ++ ")"
  | math operator left right _ =>
      "(" ++ operator.sign ++ " " ++ text left ++ " " ++ text right ++ ")"
  | union members _ => "(|" ++ textAll members ++ ")"
  | string value _ => "\"" ++ value ++ "\""
  | number value _ => Decimal.write "inf" value
  | boolean value _ => if value then "true" else "false"

def textAll : List Node → String
  | [] => ""
  | node :: rest => " " ++ text node ++ textAll rest
end

end Node

end SprigCompiler
