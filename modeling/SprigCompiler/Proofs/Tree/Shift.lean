import SprigCompiler.Parser.Error
import SprigCompiler.Proofs.Tree.Relocation

/-!
Moving down a text.

When more text is put in front of a text, up to the start of a line, everything in the text keeps its
column and moves down by some lines and right by some bytes.
-/

namespace SprigCompiler

/-- The lines and the bytes that stand in front of a text. -/
structure Shift where
  lines : Nat
  bytes : Nat
  deriving DecidableEq, Repr

class Movable (Data : Type) where
  move : Shift → Data → Data

open Movable (move)

instance : Movable Operator := ⟨fun _ sign => sign⟩

instance : Movable Position :=
  ⟨fun shift position => ⟨position.line + shift.lines, position.column⟩⟩

instance : Movable Location :=
  ⟨fun shift place =>
    ⟨place.line + shift.lines, place.column, place.start + shift.bytes,
      place.stop + shift.bytes⟩⟩

instance : Movable Place :=
  ⟨fun shift place => ⟨move shift place.position, place.offset + shift.bytes⟩⟩

instance : Movable Token :=
  ⟨fun shift token => { token with location := move shift token.location }⟩

instance : Movable Node := ⟨fun shift node => node.relocated (move shift)⟩

instance : Movable ValidationError :=
  ⟨fun shift error => { error with location := move shift error.location }⟩

instance : Movable LexicalError :=
  ⟨fun shift error => { error with position := move shift error.position }⟩

instance : Movable ParseError where
  move shift
    | .lexical error => .lexical (move shift error)
    | .unexpectedToken kind text position => .unexpectedToken kind text (move shift position)
    | .unexpectedEnd position => .unexpectedEnd (move shift position)
    | .invalidNode error => .invalidNode (move shift error)
    | .duplicateEntry position => .duplicateEntry (move shift position)
    | .incomplete position => .incomplete (move shift position)

instance {Data : Type} [Movable Data] : Movable (List Data) :=
  ⟨fun shift data => data.map (move shift)⟩

instance {Data : Type} [Movable Data] : Movable (Option Data) :=
  ⟨fun shift data => data.map (move shift)⟩

instance {First Second : Type} [Movable First] [Movable Second] : Movable (First × Second) :=
  ⟨fun shift data => (move shift data.1, move shift data.2)⟩

instance {Error Result : Type} [Movable Error] [Movable Result] :
    Movable (Except Error Result) where
  move shift
    | .ok result => .ok (move shift result)
    | .error error => .error (move shift error)

namespace Shift

variable {Data : Type} [Movable Data] (shift : Shift)

@[simp] theorem move_nil : move shift ([] : List Data) = [] := rfl

@[simp] theorem move_cons (first : Data) (rest : List Data) :
    move shift (first :: rest) = move shift first :: move shift rest := rfl

@[simp] theorem move_append (first second : List Data) :
    move shift (first ++ second) = move shift first ++ move shift second := List.map_append

@[simp] theorem move_reverse (data : List Data) :
    move shift data.reverse = (move shift data).reverse := List.map_reverse

theorem through_move (first last : Location) :
    (move shift first).through (move shift last) = move shift (first.through last) := by
  simp only [Location.through, move, Location.mk.injEq, true_and]
  omega

@[simp] theorem kind_move (token : Token) : (move shift token).kind = token.kind := rfl

@[simp] theorem location_move (token : Token) :
    (move shift token).location = move shift token.location := rfl

def zero : Shift := ⟨0, 0⟩

theorem map_move_zero (same : ∀ item : Data, move zero item = item) (data : List Data) :
    move zero data = data := by
  rw [show move zero data = data.map (move zero) from rfl, funext same]
  exact List.map_id' data

@[simp] theorem move_zero_token (token : Token) : move zero token = token := rfl

@[simp] theorem move_zero_tokens (tokens : List Token) : move zero tokens = tokens :=
  map_move_zero move_zero_token tokens

mutual
private theorem relocated_id : ∀ node : Node, node.relocated (fun place => place) = node
  | .program body place => congrArg (Node.program · place) (relocatedAll_id body)
  | .identifier _ _ => rfl
  | .statement form value place => congrArg (Node.statement form · place) (relocated_id value)
  | .block body place => congrArg (Node.block · place) (relocatedAll_id body)
  | .application form head arguments place =>
      congrArg₂ (Node.application form · · place) (relocated_id head) (relocatedAll_id arguments)
  | .assignment left right place =>
      congrArg₂ (Node.assignment · · place) (relocated_id left) (relocated_id right)
  | .math operator left right place =>
      congrArg₂ (Node.math operator · · place) (relocated_id left) (relocated_id right)
  | .union members place => congrArg (Node.union · place) (relocatedAll_id members)
  | .string _ _ => rfl
  | .number _ _ => rfl
  | .boolean _ _ => rfl

theorem relocatedAll_id :
    ∀ nodes : List Node, Node.relocatedAll (fun place => place) nodes = nodes
  | [] => rfl
  | node :: rest => congrArg₂ List.cons (relocated_id node) (relocatedAll_id rest)
end

@[simp] theorem move_zero_node (node : Node) : move zero node = node := relocated_id node

@[simp] theorem relocatedAll_move (nodes : List Node) :
    Node.relocatedAll (move shift) nodes = move shift nodes := Node.relocatedAll_eq_map _ _

@[simp] theorem location_move_node (node : Node) :
    (move shift node).location = move shift node.location :=
  Node.location_relocated _ node

theorem checked_move (node : Node) :
    (move shift node).checked = move shift node.checked := by
  change (node.relocated (move shift)).checked = _
  rw [Node.checked_relocated]
  cases node.checked <;> rfl

end Shift

end SprigCompiler
