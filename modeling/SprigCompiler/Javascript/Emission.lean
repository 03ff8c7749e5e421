import SprigCompiler.Javascript.Page
import SprigCompiler.Number.Shortest
import SprigCompiler.Text.Quoted
import SprigCompiler.Tree.Node

/-!
Trees as JavaScript.

Types leave nothing behind: type declarations, unions and type parameters write no text.  An operand
that is itself arithmetic stands in parentheses, so that the grouping of the tree does not depend on
precedence.  A function whose value is an expression becomes one that returns it.
-/

namespace SprigCompiler

def prelude : String := "'use strict';"

/-- What stands before the name of an application.  Type parameters are not written at all. -/
def ApplicationForm.lead? : ApplicationForm → Option String
  | functionParameters | call => some ""
  | instantiation => some "new "
  | typeParameters => none

namespace Node

def isTypeDeclaration : Node → Bool
  | statement .type _ _ => true
  | _ => false

def isMath : Node → Bool
  | math _ _ _ _ => true
  | _ => false

def isBlock : Node → Bool
  | block _ _ => true
  | _ => false

def parenthesized (needed : Bool) (write : Page → Option Page) (page : Page) : Option Page :=
  if needed then do return (← write (page.write "(")).write ")"
  else write page

/-- Adds a function body: a block as it is, and anything else as the value to return. -/
def returning (isBody : Bool) (write : Page → Option Page) (page : Page) : Option Page :=
  if isBody then write page
  else do
    let page ← write (page.openBlock.indent.write "return ")
    (page.write ";\n").closeBlock?

mutual
/-- Adds a node to a page.  A function declaration without the two sides of an assignment has no
text. -/
def emit : Node → Page → Option Page
  | program body _, page => emitParagraphs body (page.write (prelude ++ "\n"))
  | identifier name _, page => some (page.write name)
  | statement .main value _, page => do return (← emit value page).write ";"
  | statement .type _ _, page => some page
  | statement .binding value _, page => do return (← emit value (page.write "var ")).write ";"
  | statement .function (assignment left right _) _, page => do
      let page ← emit left (page.write "function ")
      let page := if left.isIdentifier then page.write "()" else page
      returning right.isBlock (emit right) (page.write " ")
  | statement .function _ _, _ => none
  | statement .result value _, page => do return (← emit value (page.write "return ")).write ";"
  | block body _, page => do (← emitLines body page.openBlock).closeBlock?
  | application form head arguments _, page =>
      match form.lead? with
      | none => some page
      | some lead => do
          let page ← emit head (page.write lead)
          return (← emitArguments true arguments (page.write "(")).write ")"
  | assignment left right _, page => do emit right ((← emit left page).write " = ")
  | math operator left right _, page => do
      let page ← parenthesized left.isMath (emit left) page
      parenthesized right.isMath (emit right) (page.write (" " ++ operator.sign ++ " "))
  | union _ _, page => some page
  | string value _, page => some (page.write (Quoted.text value))
  | number value _, page => some (page.write (Decimal.write "Infinity" value))
  | boolean value _, page => some (page.write (if value then "true" else "false"))

def emitParagraphs : List Node → Page → Option Page
  | [], page => some page
  | node :: rest, page =>
      if node.isTypeDeclaration then emitParagraphs rest page
      else do emitParagraphs rest ((← emit node (page.write "\n")).write "\n")

def emitLines : List Node → Page → Option Page
  | [], page => some page
  | node :: rest, page =>
      if node.isTypeDeclaration then emitLines rest page
      else do emitLines rest ((← emit node page.indent).write "\n")

/-- Adds arguments with commas between them; `isFirst` says that none stands before. -/
def emitArguments (isFirst : Bool) : List Node → Page → Option Page
  | [], page => some page
  | node :: rest, page => do
      let page := if isFirst then page else page.write ", "
      emitArguments false rest (← emit node page)
end

def emitAll : List Node → Page → Option Page
  | [], page => some page
  | node :: rest, page => do emitAll rest (← emit node page)

def javascript? (node : Node) : Option String := (node.emit .blank).map Page.text

end Node

end SprigCompiler
