import SprigCompiler.Tree.Node

/-!
Going through a tree.

`preorder` lists a node before its children and the children in the order of the source.
-/

namespace SprigCompiler.Node

mutual
def preorder (depth : Nat) : Node → List (Nat × Node)
  | program body location => (depth, program body location) :: preorderAll (depth + 1) body
  | identifier name location => [(depth, identifier name location)]
  | statement form value location =>
      (depth, statement form value location) :: preorder (depth + 1) value
  | block body location => (depth, block body location) :: preorderAll (depth + 1) body
  | application form head arguments location =>
      (depth, application form head arguments location) ::
        (preorder (depth + 1) head ++ preorderAll (depth + 1) arguments)
  | assignment left right location =>
      (depth, assignment left right location) ::
        (preorder (depth + 1) left ++ preorder (depth + 1) right)
  | math operator left right location =>
      (depth, math operator left right location) ::
        (preorder (depth + 1) left ++ preorder (depth + 1) right)
  | union members location => (depth, union members location) :: preorderAll (depth + 1) members
  | string value location => [(depth, string value location)]
  | number value location => [(depth, number value location)]
  | boolean value location => [(depth, boolean value location)]

def preorderAll (depth : Nat) : List Node → List (Nat × Node)
  | [] => []
  | node :: rest => preorder depth node ++ preorderAll depth rest
end

def isValid (node : Node) : Bool :=
  (node.preorder 0).all fun row => row.2.firstFault?.isNone

mutual
/-- Whether two trees are equal at every node, locations included.  Numbers are compared by value,
so that a tree with something that is no number differs from itself. -/
def same : Node → Node → Bool
  | program body location, program otherBody otherLocation =>
      sameAll body otherBody && location == otherLocation
  | identifier name location, identifier otherName otherLocation =>
      name == otherName && location == otherLocation
  | statement form value location, statement otherForm otherValue otherLocation =>
      form == otherForm && same value otherValue && location == otherLocation
  | block body location, block otherBody otherLocation =>
      sameAll body otherBody && location == otherLocation
  | application form head arguments location,
      application otherForm otherHead otherArguments otherLocation =>
      form == otherForm && same head otherHead && sameAll arguments otherArguments &&
        location == otherLocation
  | assignment left right location, assignment otherLeft otherRight otherLocation =>
      same left otherLeft && same right otherRight && location == otherLocation
  | math operator left right location, math otherOperator otherLeft otherRight otherLocation =>
      operator == otherOperator && same left otherLeft && same right otherRight &&
        location == otherLocation
  | union members location, union otherMembers otherLocation =>
      sameAll members otherMembers && location == otherLocation
  | string value location, string otherValue otherLocation =>
      value == otherValue && location == otherLocation
  | number value location, number otherValue otherLocation =>
      value.sameValue otherValue && location == otherLocation
  | boolean value location, boolean otherValue otherLocation =>
      value == otherValue && location == otherLocation
  | _, _ => false

def sameAll : List Node → List Node → Bool
  | [], [] => true
  | node :: rest, other :: otherRest => same node other && sameAll rest otherRest
  | _, _ => false
end

end SprigCompiler.Node
