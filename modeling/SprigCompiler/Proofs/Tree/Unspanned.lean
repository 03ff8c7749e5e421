import SprigCompiler.Parser.Error
import SprigCompiler.Proofs.Javascript.Locations
import SprigCompiler.Token.Cursor
import SprigCompiler.Tree.Text

/-!
Locations without bytes.

A reader of a text sees lines and columns, and does not see how many bytes the text in front of
them takes.  Data are taken without the bytes that their locations cover in order to compare what is
read from two texts that look the same.
-/

namespace SprigCompiler

def Location.unspanned (place : Location) : Location := ⟨place.line, place.column, 0, 0⟩

class Spanned (Data : Type) where
  unspanned : Data → Data

open Spanned (unspanned)

instance : Spanned Unit := ⟨fun data => data⟩

instance : Spanned Nat := ⟨fun data => data⟩

instance : Spanned Operator := ⟨fun sign => sign⟩

instance : Spanned TokenKind := ⟨fun kind => kind⟩

instance : Spanned LexicalError := ⟨fun error => error⟩

instance : Spanned Location := ⟨Location.unspanned⟩

instance : Spanned Token := ⟨fun token => { token with location := unspanned token.location }⟩

instance : Spanned Node := ⟨Node.relocated unspanned⟩

instance : Spanned ValidationError := ⟨ValidationError.relocated unspanned⟩

instance : Spanned ParseError where
  unspanned
    | .invalidNode error => .invalidNode (unspanned error)
    | error => error

instance {Data : Type} [Spanned Data] : Spanned (List Data) := ⟨List.map unspanned⟩

instance {Data : Type} [Spanned Data] : Spanned (Option Data) := ⟨Option.map unspanned⟩

instance {First Second : Type} [Spanned First] [Spanned Second] : Spanned (First × Second) :=
  ⟨fun data => (unspanned data.1, unspanned data.2)⟩

instance {Error Result : Type} [Spanned Error] [Spanned Result] :
    Spanned (Except Error Result) where
  unspanned
    | .ok result => .ok (unspanned result)
    | .error error => .error (unspanned error)

instance : Spanned Cursor :=
  ⟨fun cursor => { cursor with tokens := cursor.tokens.map unspanned }⟩

namespace Spanned

theorem through_unspanned (first last : Location) :
    (unspanned first).through (unspanned last) = unspanned (first.through last) := rfl

@[simp] theorem kind_unspanned (token : Token) : (unspanned token).kind = token.kind := rfl

@[simp] theorem text_unspanned (token : Token) : (unspanned token).text = token.text := rfl

@[simp] theorem location_unspanned_node (node : Node) :
    (unspanned node).location = unspanned node.location :=
  Node.location_relocated _ node

@[simp] theorem relocatedAll_unspanned (nodes : List Node) :
    Node.relocatedAll unspanned nodes = unspanned nodes := Node.relocatedAll_eq_map _ _

theorem checked_unspanned (node : Node) :
    (unspanned node).checked.mapError ParseError.invalidNode =
      unspanned (node.checked.mapError ParseError.invalidNode) := by
  change (node.relocated unspanned).checked.mapError ParseError.invalidNode = _
  rw [Node.checked_relocated]
  cases node.checked <;> rfl

theorem getLast?_unspanned (nodes : List Node) :
    (unspanned nodes).getLast? = unspanned nodes.getLast? := List.getLast?_map

/-- Outcomes that are equal but for bytes are both results or both errors. -/
theorem outcomes_of_unspanned {Error Result : Type} [Spanned Error] [Spanned Result]
    {outcome other : Except Error Result} (same : unspanned other = unspanned outcome) :
    (∃ result changed, outcome = .ok result ∧ other = .ok changed ∧
      unspanned changed = unspanned result) ∨
    ∃ error changed, outcome = .error error ∧ other = .error changed ∧
      unspanned changed = unspanned error := by
  cases outcome with
  | ok result =>
      cases other with
      | ok changed => exact .inl ⟨result, changed, rfl, rfl, Except.ok.inj same⟩
      | error changed => cases same
  | error error =>
      cases other with
      | ok changed => cases same
      | error changed => exact .inr ⟨error, changed, rfl, rfl, Except.error.inj same⟩

@[simp] theorem message_unspanned (error : ParseError) :
    (unspanned error).message = error.message := by
  cases error <;> rfl

@[simp] theorem position_unspanned (error : ParseError) :
    (unspanned error).position = error.position := by
  cases error <;> rfl

theorem getElem?_unspanned (tokens : Array Token) (index : Nat) :
    (tokens.map unspanned)[index]? = unspanned tokens[index]? := Array.getElem?_map

theorem lastBefore_unspanned (tokens : Array Token) {condition : Token → Bool}
    (same : ∀ token, condition (unspanned token) = condition token) (index : Nat) :
    Cursor.lastBefore (tokens.map unspanned) condition index =
      unspanned (Cursor.lastBefore tokens condition index) := by
  induction index with
  | zero => rfl
  | succ index inductionHypothesis =>
      rw [Cursor.lastBefore, Cursor.lastBefore, getElem?_unspanned]
      cases tokens[index]? with
      | none => exact inductionHypothesis
      | some token =>
          change (if condition (unspanned token) then some (unspanned token) else _) =
            unspanned (if condition token then some token else _)
          rw [same, inductionHypothesis]
          split <;> rfl

end Spanned

namespace Node

variable (move : Location → Location)

mutual
/-- A tree is written in the same way wherever it stands. -/
theorem text_relocated : ∀ node : Node, (node.relocated move).text = node.text
  | program body place => by rw [relocated, text, text, textAll_relocated body]
  | identifier name place => rfl
  | statement form value place => by rw [relocated, text, text, text_relocated value]
  | block body place => by rw [relocated, text, text, textAll_relocated body]
  | application form head arguments place => by
      rw [relocated, text, text, text_relocated head, textAll_relocated arguments]
  | assignment left right place => by
      rw [relocated, text, text, text_relocated left, text_relocated right]
  | math operator left right place => by
      rw [relocated, text, text, text_relocated left, text_relocated right]
  | union members place => by rw [relocated, text, text, textAll_relocated members]
  | string value place => rfl
  | number value place => rfl
  | boolean value place => rfl

theorem textAll_relocated :
    ∀ nodes : List Node, textAll (relocatedAll move nodes) = textAll nodes
  | [] => rfl
  | node :: rest => by
      rw [relocatedAll, textAll, textAll, text_relocated node, textAll_relocated rest]
end

theorem javascript?_relocated (node : Node) :
    (node.relocated move).javascript? = node.javascript? := by
  unfold javascript?
  rw [emit_relocated]

end Node

end SprigCompiler
