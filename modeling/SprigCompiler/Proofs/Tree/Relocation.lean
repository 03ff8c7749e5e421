import Mathlib.Data.List.Forall2
import SprigCompiler.Tree.Node

/-!
Trees with other locations.

Moving the locations of a tree changes neither the kinds of its nodes nor whether their children are
admissible.  Two trees are alike when they are equal up to locations.
-/

namespace SprigCompiler

def ValidationError.relocated (move : Location → Location) (error : ValidationError) :
    ValidationError :=
  { error with location := move error.location }

namespace Node

mutual
def relocated (move : Location → Location) : Node → Node
  | program body place => program (relocatedAll move body) (move place)
  | identifier name place => identifier name (move place)
  | statement form value place => statement form (relocated move value) (move place)
  | block body place => block (relocatedAll move body) (move place)
  | application form head arguments place =>
      application form (relocated move head) (relocatedAll move arguments) (move place)
  | assignment left right place =>
      assignment (relocated move left) (relocated move right) (move place)
  | math operator left right place =>
      math operator (relocated move left) (relocated move right) (move place)
  | union members place => union (relocatedAll move members) (move place)
  | string value place => string value (move place)
  | number value place => number value (move place)
  | boolean value place => boolean value (move place)

def relocatedAll (move : Location → Location) : List Node → List Node
  | [] => []
  | node :: rest => relocated move node :: relocatedAll move rest
end

/-- A tree without its locations: all of them are moved to one. -/
def unlocated (node : Node) : Node := node.relocated fun _ => ⟨0, 0, 0, 0⟩

/-- Whether two trees are equal up to locations. -/
def Alike (node other : Node) : Prop := node.unlocated = other.unlocated

def AlikeAll (nodes others : List Node) : Prop := List.Forall₂ Alike nodes others

theorem relocatedAll_eq_map (move : Location → Location) (nodes : List Node) :
    relocatedAll move nodes = nodes.map (relocated move) := by
  induction nodes with
  | nil => rfl
  | cons node rest inductionHypothesis =>
      rw [relocatedAll, inductionHypothesis, List.map_cons]

@[simp] theorem kind_relocated (move : Location → Location) (node : Node) :
    (node.relocated move).kind = node.kind := by
  cases node <;> rfl

theorem fault?_eq_none_iff (parent : NodeKind) (field : Field) (child : Node) :
    fault? parent field child = none ↔ child.kind ∈ parent.admissible field := by
  unfold fault?
  split <;> simp_all

theorem faultAmong?_eq_none_iff (parent : NodeKind) (field : Field) (children : List Node) :
    faultAmong? parent field children = none ↔
      ∀ child ∈ children, child.kind ∈ parent.admissible field := by
  simp only [faultAmong?, List.findSome?_eq_none_iff, fault?_eq_none_iff]

@[simp] theorem location_relocated (move : Location → Location) (node : Node) :
    (node.relocated move).location = move node.location := by
  cases node <;> rfl

theorem or_map {Item Other : Type} (change : Item → Other) (first second : Option Item) :
    (first.map change).or (second.map change) = (first.or second).map change := by
  cases first <;> rfl

variable (move : Location → Location)

theorem fault?_relocated (parent : NodeKind) (field : Field) (child : Node) :
    fault? parent field (child.relocated move) =
      (fault? parent field child).map (ValidationError.relocated move) := by
  unfold fault?
  rw [kind_relocated, location_relocated]
  split <;> rfl

private theorem faultAmong?_relocated (parent : NodeKind) (field : Field) (children : List Node) :
    faultAmong? parent field (relocatedAll move children) =
      (faultAmong? parent field children).map (ValidationError.relocated move) := by
  unfold faultAmong?
  induction children with
  | nil => rfl
  | cons child rest inductionHypothesis =>
      rw [relocatedAll, List.findSome?_cons, List.findSome?_cons, fault?_relocated,
        inductionHypothesis]
      cases fault? parent field child <;> rfl

private theorem sidesFault?_relocated (parent : NodeKind) (node : Node) :
    sidesFault? parent (node.relocated move) =
      (sidesFault? parent node).map (ValidationError.relocated move) := by
  cases node with
  | assignment left right place =>
      rw [relocated, sidesFault?, sidesFault?, fault?_relocated, fault?_relocated, or_map]
  | _ => rfl

/-- What is wrong with a tree moves with it. -/
theorem firstFault?_relocated (node : Node) :
    (node.relocated move).firstFault? =
      node.firstFault?.map (ValidationError.relocated move) := by
  cases node with
  | program body place => exact faultAmong?_relocated move _ _ body
  | block body place => exact faultAmong?_relocated move _ _ body
  | statement form value place =>
      rw [relocated, firstFault?, firstFault?, fault?_relocated, sidesFault?_relocated, ← or_map]
      split <;> rfl
  | application form head arguments place =>
      rw [relocated, firstFault?, firstFault?, fault?_relocated, faultAmong?_relocated, or_map]
  | assignment left right place =>
      rw [relocated, firstFault?, firstFault?, fault?_relocated, fault?_relocated, or_map]
  | math operator left right place =>
      rw [relocated, firstFault?, firstFault?, fault?_relocated, fault?_relocated, or_map]
  | union members place =>
      cases members with
      | nil => rfl
      | cons first rest => exact faultAmong?_relocated move _ _ (first :: rest)
  | _ => rfl

theorem checked_relocated (node : Node) :
    (node.relocated move).checked =
      match node.checked with
      | .ok node => .ok (node.relocated move)
      | .error error => .error (error.relocated move) := by
  unfold checked
  rw [firstFault?_relocated]
  cases node.firstFault? <;> rfl

private theorem firstFault?_relocated_eq_none_iff (node : Node) :
    (node.relocated move).firstFault? = none ↔ node.firstFault? = none := by
  rw [firstFault?_relocated, Option.map_eq_none_iff]

namespace Alike

theorem refl (node : Node) : node.Alike node := rfl

theorem trans {node other third : Node} (alike : node.Alike other) (next : other.Alike third) :
    node.Alike third := Eq.trans alike next

theorem kind_eq {node other : Node} (alike : node.Alike other) : node.kind = other.kind := by
  have kinds := congrArg kind alike
  simpa only [unlocated, kind_relocated] using kinds

theorem firstFault?_eq_none_iff {node other : Node} (alike : node.Alike other) :
    node.firstFault? = none ↔ other.firstFault? = none := by
  have faults : node.unlocated.firstFault? = none ↔ other.unlocated.firstFault? = none := by
    rw [show node.unlocated = other.unlocated from alike]
  simpa only [unlocated, firstFault?_relocated_eq_none_iff] using faults

end Alike

theorem relocatedAll_eq_of_alikeAll {nodes others : List Node} (alike : AlikeAll nodes others) :
    relocatedAll (fun _ => ⟨0, 0, 0, 0⟩) nodes = relocatedAll (fun _ => ⟨0, 0, 0, 0⟩) others := by
  induction alike with
  | nil => rfl
  | cons head _ inductionHypothesis =>
      simp only [relocatedAll]
      rw [inductionHypothesis]
      exact congrArg (· :: _) head

theorem alike_identifier (name : String) (place other : Location) :
    (identifier name place).Alike (identifier name other) := rfl

theorem alike_statement (form : StatementForm) {value other : Node} (place otherPlace : Location)
    (alike : value.Alike other) :
    (statement form value place).Alike (statement form other otherPlace) :=
  congrArg (statement form · ⟨0, 0, 0, 0⟩) alike

theorem alike_block {body others : List Node} (place otherPlace : Location)
    (alike : AlikeAll body others) : (block body place).Alike (block others otherPlace) :=
  congrArg (block · ⟨0, 0, 0, 0⟩) (relocatedAll_eq_of_alikeAll alike)

theorem alike_program {body others : List Node} (place otherPlace : Location)
    (alike : AlikeAll body others) : (program body place).Alike (program others otherPlace) :=
  congrArg (program · ⟨0, 0, 0, 0⟩) (relocatedAll_eq_of_alikeAll alike)

theorem alike_union {members others : List Node} (place otherPlace : Location)
    (alike : AlikeAll members others) : (union members place).Alike (union others otherPlace) :=
  congrArg (union · ⟨0, 0, 0, 0⟩) (relocatedAll_eq_of_alikeAll alike)

theorem alike_application (form : ApplicationForm) {head otherHead : Node}
    {arguments others : List Node} (place otherPlace : Location) (heads : head.Alike otherHead)
    (alike : AlikeAll arguments others) :
    (application form head arguments place).Alike
      (application form otherHead others otherPlace) :=
  congrArg₂ (application form · · ⟨0, 0, 0, 0⟩) heads (relocatedAll_eq_of_alikeAll alike)

theorem alike_assignment {left right otherLeft otherRight : Node} (place otherPlace : Location)
    (lefts : left.Alike otherLeft) (rights : right.Alike otherRight) :
    (assignment left right place).Alike (assignment otherLeft otherRight otherPlace) :=
  congrArg₂ (assignment · · ⟨0, 0, 0, 0⟩) lefts rights

theorem alike_math (operator : MathOperator) {left right otherLeft otherRight : Node}
    (place otherPlace : Location) (lefts : left.Alike otherLeft) (rights : right.Alike otherRight) :
    (math operator left right place).Alike (math operator otherLeft otherRight otherPlace) :=
  congrArg₂ (math operator · · ⟨0, 0, 0, 0⟩) lefts rights

end Node

end SprigCompiler
