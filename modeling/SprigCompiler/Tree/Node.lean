import SprigCompiler.Text.Location
import SprigCompiler.Token.Basic
import SprigCompiler.Number.Binary64
import SprigCompiler.Tree.Kind

/-!
Syntax trees.

A node can be put together from any parts; `checked` lets only those pass whose children the table
of admissible kinds allows, and otherwise names the first child that it does not allow.
-/

namespace SprigCompiler

inductive StatementForm where
  | main
  | type
  | binding
  | function
  | result
  deriving DecidableEq, Repr

namespace StatementForm

def kind : StatementForm → NodeKind
  | main => .mainDeclaration
  | type => .typeDeclaration
  | binding => .letDeclaration
  | function => .functionDeclaration
  | result => .returnStatement

/-- Whether the statement declares the two sides of an assignment. -/
def declaresSides : StatementForm → Bool
  | type | binding | function => true
  | main | result => false

end StatementForm

inductive ApplicationForm where
  | functionParameters
  | typeParameters
  | call
  | instantiation
  deriving DecidableEq, Repr

namespace ApplicationForm

def kind : ApplicationForm → NodeKind
  | functionParameters => .functionParameterExpression
  | typeParameters => .typeParameterExpression
  | call => .functionCallExpression
  | instantiation => .typeInstantiationExpression

def ofKind? : NodeKind → Option ApplicationForm
  | .functionParameterExpression => some functionParameters
  | .typeParameterExpression => some typeParameters
  | .functionCallExpression => some call
  | .typeInstantiationExpression => some instantiation
  | _ => none

end ApplicationForm

inductive MathOperator where
  | add
  | sub
  | mul
  | div
  deriving DecidableEq, Repr

namespace MathOperator

def ofOperator? : Operator → Option MathOperator
  | .plus => some add
  | .minus => some sub
  | .asterisk => some mul
  | .slash => some div
  | .assign | .union => none

def sign : MathOperator → String
  | add => "+"
  | sub => "-"
  | mul => "*"
  | div => "/"

end MathOperator

inductive Node where
  | program (body : List Node) (location : Location)
  | identifier (name : String) (location : Location)
  | statement (form : StatementForm) (value : Node) (location : Location)
  | block (body : List Node) (location : Location)
  | application (form : ApplicationForm) (head : Node) (arguments : List Node)
      (location : Location)
  | assignment (left right : Node) (location : Location)
  | math (operator : MathOperator) (left right : Node) (location : Location)
  | union (members : List Node) (location : Location)
  | string (value : String) (location : Location)
  | number (value : Binary64) (location : Location)
  | boolean (value : Bool) (location : Location)
  deriving Repr

/-- A child of a kind that its parent does not admit, or a required child that is missing: then
nothing is `found`, and the location is the parent's own. -/
structure ValidationError where
  parent : NodeKind
  field : Field
  found : Option NodeKind
  location : Location
  deriving DecidableEq, Repr

namespace ValidationError

def expected (error : ValidationError) : List NodeKind := error.parent.admissible error.field

def message (error : ValidationError) : String :=
  let found :=
    match error.found with
    | some kind => kind.name
    | none => "nothing"
  "expected " ++ String.intercalate " or " (error.expected.map NodeKind.name) ++ " in " ++
    error.parent.name ++ "." ++ error.field.name ++ ", found " ++ found ++ " at " ++
    error.location.text

end ValidationError

namespace Node

def kind : Node → NodeKind
  | program _ _ => .program
  | identifier _ _ => .identifier
  | statement form _ _ => form.kind
  | block _ _ => .blockStatement
  | application form _ _ _ => form.kind
  | assignment _ _ _ => .assignmentExpression
  | math _ _ _ _ => .mathExpression
  | union _ _ => .unionOperation
  | string _ _ => .stringLiteral
  | number _ _ => .numericLiteral
  | boolean _ _ => .booleanLiteral

def location : Node → Location
  | program _ location => location
  | identifier _ location => location
  | statement _ _ location => location
  | block _ location => location
  | application _ _ _ location => location
  | assignment _ _ location => location
  | math _ _ _ location => location
  | union _ location => location
  | string _ location => location
  | number _ location => location
  | boolean _ location => location

def isIdentifier : Node → Bool
  | identifier _ _ => true
  | _ => false

def name? : Node → Option String
  | identifier name _ => some name
  | _ => none

def fault? (parent : NodeKind) (field : Field) (child : Node) : Option ValidationError :=
  if child.kind ∈ parent.admissible field then none
  else some ⟨parent, field, some child.kind, child.location⟩

def faultAmong? (parent : NodeKind) (field : Field) (children : List Node) :
    Option ValidationError :=
  children.findSome? (fault? parent field)

def sidesFault? (parent : NodeKind) : Node → Option ValidationError
  | assignment left right _ =>
      (fault? parent .valueLeft left).or (fault? parent .valueRight right)
  | _ => none

/-- The first thing wrong with the children of a node, in the order of its fields.  The children's
own children are not looked at, apart from the sides of a declared assignment. -/
def firstFault? : Node → Option ValidationError
  | program body _ => faultAmong? .program .body body
  | statement form value _ =>
      (fault? form.kind .value value).or
        (if form.declaresSides then sidesFault? form.kind value else none)
  | block body _ => faultAmong? .blockStatement .body body
  | application form head arguments _ =>
      (fault? form.kind .id head).or (faultAmong? form.kind .params arguments)
  | assignment left right _ =>
      (fault? .assignmentExpression .left left).or (fault? .assignmentExpression .right right)
  | math _ left right _ =>
      (fault? .mathExpression .left left).or (fault? .mathExpression .right right)
  | union members location =>
      if members.isEmpty then some ⟨.unionOperation, .values, none, location⟩
      else faultAmong? .unionOperation .values members
  | identifier _ _ | string _ _ | number _ _ | boolean _ _ => none

def checked (node : Node) : Except ValidationError Node :=
  match node.firstFault? with
  | none => .ok node
  | some error => .error error

end Node

inductive ApplicationError where
  | notApplication (kind : NodeKind)
  | invalid (error : ValidationError)
  deriving DecidableEq, Repr

namespace ApplicationError

def message : ApplicationError → String
  | notApplication kind => kind.name ++ " is not an application kind"
  | invalid error => error.message

end ApplicationError

namespace Node

def applicationOfKind (kind : NodeKind) (head : Node) (arguments : List Node)
    (location : Location) : Except ApplicationError Node :=
  match ApplicationForm.ofKind? kind with
  | none => .error (.notApplication kind)
  | some form =>
      match (application form head arguments location).checked with
      | .ok node => .ok node
      | .error error => .error (.invalid error)

end Node

end SprigCompiler
