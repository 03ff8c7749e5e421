/-!
Kinds of nodes, and which kinds may stand where.

The table `admissible` lists, for a node of a kind and a field of it, the kinds that its child there
may have.  Below a declaration it also looks at the two sides of the declared assignment.
-/

namespace SprigCompiler

inductive NodeKind where
  | program
  | identifier
  | mainDeclaration
  | typeDeclaration
  | letDeclaration
  | functionDeclaration
  | returnStatement
  | blockStatement
  | functionParameterExpression
  | typeParameterExpression
  | functionCallExpression
  | typeInstantiationExpression
  | assignmentExpression
  | mathExpression
  | unionOperation
  | stringLiteral
  | numericLiteral
  | booleanLiteral
  deriving DecidableEq, Repr

namespace NodeKind

def name : NodeKind → String
  | program => "Program"
  | identifier => "Identifier"
  | mainDeclaration => "MainDeclaration"
  | typeDeclaration => "TypeDeclaration"
  | letDeclaration => "LetDeclaration"
  | functionDeclaration => "FunctionDeclaration"
  | returnStatement => "ReturnStatement"
  | blockStatement => "BlockStatement"
  | functionParameterExpression => "FunctionParameterExpression"
  | typeParameterExpression => "TypeParameterExpression"
  | functionCallExpression => "FunctionCallExpression"
  | typeInstantiationExpression => "TypeInstantiationExpression"
  | assignmentExpression => "AssignmentExpression"
  | mathExpression => "MathExpression"
  | unionOperation => "UnionOperation"
  | stringLiteral => "StringLiteral"
  | numericLiteral => "NumericLiteral"
  | booleanLiteral => "BooleanLiteral"

end NodeKind

/-- A place for children in a node.  `valueLeft` and `valueRight` are the sides of the assignment
that a declaration holds. -/
inductive Field where
  | body
  | value
  | valueLeft
  | valueRight
  | id
  | params
  | left
  | right
  | values
  deriving DecidableEq, Repr

namespace Field

def name : Field → String
  | body => "body"
  | value => "value"
  | valueLeft => "value.left"
  | valueRight => "value.right"
  | id => "id"
  | params => "params"
  | left => "left"
  | right => "right"
  | values => "values"

end Field

namespace NodeKind

def literals : List NodeKind := [stringLiteral, numericLiteral, booleanLiteral]

def computed : List NodeKind :=
  [identifier, functionCallExpression, mathExpression] ++ literals

/-- The kinds that may stand in a field of a node.  A field that the kind does not have admits
none. -/
def admissible (parent : NodeKind) (field : Field) : List NodeKind :=
  match parent, field with
  | program, .body => [mainDeclaration, typeDeclaration, letDeclaration, functionDeclaration]
  | mainDeclaration, .value => [identifier, functionCallExpression]
  | typeDeclaration, .value => [assignmentExpression]
  | typeDeclaration, .valueLeft => [identifier, typeParameterExpression]
  | typeDeclaration, .valueRight =>
      [identifier, typeInstantiationExpression, unionOperation] ++ literals
  | letDeclaration, .value => [assignmentExpression]
  | letDeclaration, .valueLeft => [identifier]
  | letDeclaration, .valueRight => computed
  | functionDeclaration, .value => [assignmentExpression]
  | functionDeclaration, .valueLeft => [identifier, functionParameterExpression]
  | functionDeclaration, .valueRight => computed ++ [blockStatement]
  | returnStatement, .value => computed
  | blockStatement, .body => [typeDeclaration, letDeclaration, returnStatement]
  | functionParameterExpression, .id => [identifier]
  | functionParameterExpression, .params => identifier :: literals
  | typeParameterExpression, .id => [identifier]
  | typeParameterExpression, .params => identifier :: literals
  | functionCallExpression, .id => [identifier]
  | functionCallExpression, .params => identifier :: literals
  | typeInstantiationExpression, .id => [identifier]
  | typeInstantiationExpression, .params => identifier :: literals
  | assignmentExpression, .left =>
      [identifier, functionParameterExpression, typeParameterExpression]
  | assignmentExpression, .right =>
      [identifier, functionCallExpression, typeInstantiationExpression, mathExpression,
        unionOperation, blockStatement] ++ literals
  | mathExpression, .left => [identifier, functionCallExpression, mathExpression, numericLiteral]
  | mathExpression, .right => [identifier, functionCallExpression, mathExpression, numericLiteral]
  | unionOperation, .values => [identifier, typeInstantiationExpression] ++ literals
  | _, _ => []

end NodeKind

end SprigCompiler
