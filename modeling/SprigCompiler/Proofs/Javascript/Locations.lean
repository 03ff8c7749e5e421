import SprigCompiler.Javascript.Emission
import SprigCompiler.Proofs.Tree.Relocation

/-!
The JavaScript of a tree does not depend on its locations.
-/

namespace SprigCompiler.Node

variable (move : Location → Location)

@[simp] theorem isIdentifier_relocated (node : Node) :
    (node.relocated move).isIdentifier = node.isIdentifier := by
  cases node <;> rfl

@[simp] theorem isMath_relocated (node : Node) : (node.relocated move).isMath = node.isMath := by
  cases node <;> rfl

@[simp] theorem isBlock_relocated (node : Node) : (node.relocated move).isBlock = node.isBlock := by
  cases node <;> rfl

@[simp] theorem isTypeDeclaration_relocated (node : Node) :
    (node.relocated move).isTypeDeclaration = node.isTypeDeclaration := by
  cases node with
  | statement form => cases form <;> rfl
  | _ => rfl

mutual
theorem emit_relocated : ∀ node : Node, (node.relocated move).emit = node.emit
  | program body place => by
      funext page
      simp only [relocated, emit, emitParagraphs_relocated body]
  | identifier name place => rfl
  | statement form value place => by
      funext page
      have same := emit_relocated value
      cases form with
      | function =>
          cases value with
          | assignment left right between =>
              have lefts := emit_relocated left
              have rights := emit_relocated right
              simp only [relocated, emit, lefts, rights, isIdentifier_relocated, isBlock_relocated]
          | _ => rfl
      | _ => simp only [relocated, emit, same]
  | block body place => by
      funext page
      simp only [relocated, emit, emitLines_relocated body]
  | application form head arguments place => by
      funext page
      have same := emit_relocated head
      simp only [relocated, emit, same, emitArguments_relocated arguments]
  | assignment left right place => by
      funext page
      have lefts := emit_relocated left
      have rights := emit_relocated right
      simp only [relocated, emit, lefts, rights]
  | math operator left right place => by
      funext page
      have lefts := emit_relocated left
      have rights := emit_relocated right
      simp only [relocated, emit, lefts, rights, isMath_relocated]
  | union members place => rfl
  | string value place => rfl
  | number value place => rfl
  | boolean value place => rfl

theorem emitParagraphs_relocated :
    ∀ nodes : List Node, emitParagraphs (relocatedAll move nodes) = emitParagraphs nodes
  | [] => rfl
  | node :: rest => by
      funext page
      have same := emit_relocated node
      simp only [relocatedAll, emitParagraphs, isTypeDeclaration_relocated, same,
        emitParagraphs_relocated rest]

theorem emitLines_relocated :
    ∀ nodes : List Node, emitLines (relocatedAll move nodes) = emitLines nodes
  | [] => rfl
  | node :: rest => by
      funext page
      have same := emit_relocated node
      simp only [relocatedAll, emitLines, isTypeDeclaration_relocated, same,
        emitLines_relocated rest]

theorem emitArguments_relocated :
    ∀ (nodes : List Node) (isFirst : Bool),
      emitArguments isFirst (relocatedAll move nodes) = emitArguments isFirst nodes
  | [], _ => rfl
  | node :: rest, isFirst => by
      funext page
      have same := emit_relocated node
      simp only [relocatedAll, emitArguments, same, emitArguments_relocated rest]
end

/-- Trees that are equal up to locations have the same JavaScript. -/
theorem Alike.javascript?_eq {node other : Node} (alike : node.Alike other) :
    node.javascript? = other.javascript? := by
  have first : node.unlocated.emit = node.emit := emit_relocated _ node
  have second : other.unlocated.emit = other.emit := emit_relocated _ other
  unfold javascript?
  rw [← first, ← second, show node.unlocated = other.unlocated from alike]

end SprigCompiler.Node
