import SprigCompiler.Proofs.Tree.Listing
import SprigCompiler.Proofs.Tree.Table

/-!
Trees built by constructors.

A constructor takes finished trees and refuses what the table of children does not allow.  So the
trees that can be built are those that the table allows at every node.
-/

namespace SprigCompiler.Node

/-- Whether a tree can be built by calls of the constructors, each from trees built before. -/
inductive Obtainable : Node → Prop where
  | identifier (name : String) (location : Location) : Obtainable (identifier name location)
  | string (value : String) (location : Location) : Obtainable (string value location)
  | number (value : Binary64) (location : Location) : Obtainable (number value location)
  | boolean (value : Bool) (location : Location) : Obtainable (boolean value location)
  | program {body : List Node} {location : Location} {node : Node}
      (parts : ∀ part ∈ body, Obtainable part)
      (made : (program body location).checked = .ok node) : Obtainable node
  | statement {form : StatementForm} {value : Node} {location : Location} {node : Node}
      (part : Obtainable value) (made : (statement form value location).checked = .ok node) :
      Obtainable node
  | block {body : List Node} {location : Location} {node : Node}
      (parts : ∀ part ∈ body, Obtainable part)
      (made : (block body location).checked = .ok node) : Obtainable node
  | application {kind : NodeKind} {head : Node} {arguments : List Node} {location : Location}
      {node : Node} (isHead : Obtainable head) (parts : ∀ part ∈ arguments, Obtainable part)
      (made : applicationOfKind kind head arguments location = .ok node) : Obtainable node
  | assignment {left right : Node} {location : Location} {node : Node} (isLeft : Obtainable left)
      (isRight : Obtainable right) (made : (assignment left right location).checked = .ok node) :
      Obtainable node
  | math {operator : MathOperator} {left right : Node} {location : Location} {node : Node}
      (isLeft : Obtainable left) (isRight : Obtainable right)
      (made : (math operator left right location).checked = .ok node) : Obtainable node
  | union {members : List Node} {location : Location} {node : Node}
      (parts : ∀ part ∈ members, Obtainable part)
      (made : (union members location).checked = .ok node) : Obtainable node

def AllowedThroughout (node : Node) : Prop := ∀ row ∈ node.preorder 0, row.2.Allowed

theorem checked_eq_ok_iff (node other : Node) :
    node.checked = .ok other ↔ node.Allowed ∧ other = node := by
  rw [← firstFault?_eq_none_iff_allowed]
  unfold checked
  cases node.firstFault? with
  | none =>
      simp only [true_and, Except.ok.injEq]
      exact eq_comm
  | some error => exact iff_of_false nofun fun both => nomatch both.1

theorem checked_eq_error_iff (node : Node) (error : ValidationError) :
    node.checked = .error error ↔ node.Offends error := by
  rw [← firstFault?_eq_some_iff]
  unfold checked
  cases node.firstFault? with
  | none => exact iff_of_false nofun nofun
  | some fault => rw [Except.error.injEq, Option.some.injEq]

@[simp] theorem ofKind?_kind (form : ApplicationForm) :
    ApplicationForm.ofKind? form.kind = some form := by
  cases form <;> rfl

theorem kind_of_ofKind? {kind : NodeKind} {form : ApplicationForm}
    (isForm : ApplicationForm.ofKind? kind = some form) : kind = form.kind := by
  unfold ApplicationForm.ofKind? at isForm
  split at isForm <;> cases isForm <;> rfl

theorem applicationOfKind_eq_ok_iff (kind : NodeKind) (head : Node) (arguments : List Node)
    (location : Location) (node : Node) :
    applicationOfKind kind head arguments location = .ok node ↔
      ∃ form : ApplicationForm, kind = form.kind ∧
        (application form head arguments location).Allowed ∧
        node = application form head arguments location := by
  unfold applicationOfKind
  cases isForm : ApplicationForm.ofKind? kind with
  | none =>
      refine iff_of_false nofun ?_
      rintro ⟨form, rfl, -⟩
      rw [ofKind?_kind] at isForm
      cases isForm
  | some form =>
      have isKind := kind_of_ofKind? isForm
      subst isKind
      have made := checked_eq_ok_iff (application form head arguments location) node
      constructor
      · intro isMade
        dsimp only at isMade
        split at isMade
        · rename_i found isFound
          cases isMade
          exact ⟨form, rfl, made.mp isFound⟩
        · cases isMade
      · rintro ⟨other, same, allowed, rfl⟩
        rw [same, ofKind?_kind] at isForm
        cases isForm
        dsimp only
        rw [made.mpr ⟨allowed, rfl⟩]

theorem applicationOfKind_eq_invalid_iff (kind : NodeKind) (head : Node) (arguments : List Node)
    (location : Location) (error : ValidationError) :
    applicationOfKind kind head arguments location = .error (.invalid error) ↔
      ∃ form : ApplicationForm, kind = form.kind ∧
        (application form head arguments location).Offends error := by
  unfold applicationOfKind
  cases isForm : ApplicationForm.ofKind? kind with
  | none =>
      refine iff_of_false nofun ?_
      rintro ⟨form, rfl, -⟩
      rw [ofKind?_kind] at isForm
      cases isForm
  | some form =>
      have isKind := kind_of_ofKind? isForm
      subst isKind
      have failed := checked_eq_error_iff (application form head arguments location) error
      constructor
      · intro isRefused
        dsimp only at isRefused
        split at isRefused
        · cases isRefused
        · rename_i found isFound
          cases isRefused
          exact ⟨form, rfl, failed.mp isFound⟩
      · rintro ⟨other, same, offends⟩
        rw [same, ofKind?_kind] at isForm
        cases isForm
        dsimp only
        rw [failed.mpr offends]

private theorem sizeOf_lt_of_mem_children {node child : Node} (isChild : child ∈ node.children) :
    sizeOf child < sizeOf node := by
  cases node with
  | program body location =>
      have smaller := List.sizeOf_lt_of_mem (show child ∈ body from isChild)
      simp only [program.sizeOf_spec]
      omega
  | block body location =>
      have smaller := List.sizeOf_lt_of_mem (show child ∈ body from isChild)
      simp only [block.sizeOf_spec]
      omega
  | union members location =>
      have smaller := List.sizeOf_lt_of_mem (show child ∈ members from isChild)
      simp only [union.sizeOf_spec]
      omega
  | statement form value location =>
      cases List.mem_singleton.mp isChild
      simp only [statement.sizeOf_spec]
      omega
  | application form head arguments location =>
      simp only [application.sizeOf_spec]
      rcases List.mem_cons.mp isChild with rfl | isArgument
      · omega
      · have smaller := List.sizeOf_lt_of_mem isArgument
        omega
  | assignment left right location =>
      simp only [assignment.sizeOf_spec]
      rcases List.mem_pair.mp isChild with rfl | rfl <;> omega
  | math operator left right location =>
      simp only [math.sizeOf_spec]
      rcases List.mem_pair.mp isChild with rfl | rfl <;> omega
  | _ => cases isChild

/-- What holds of a node whenever it holds of its children holds of all trees. -/
theorem children_induction {motive : Node → Prop}
    (parent : ∀ node, (∀ child ∈ node.children, motive child) → motive node) (node : Node) :
    motive node :=
  parent node fun child _ => children_induction parent child
termination_by sizeOf node
decreasing_by exact sizeOf_lt_of_mem_children ‹_›

theorem forall_mem_preorderAll {holds : Node → Prop} (depth : Nat) (nodes : List Node) :
    (∀ row ∈ preorderAll depth nodes, holds row.2) ↔
      ∀ node ∈ nodes, ∀ row ∈ node.preorder 0, holds row.2 := by
  have listed (depth : Nat) (node : Node) :
      (∀ row ∈ node.preorder depth, holds row.2) ↔ ∀ row ∈ node.preorder 0, holds row.2 := by
    have same := map_snd_preorder depth 0 node
    have through (depth : Nat) : (∀ row ∈ node.preorder depth, holds row.2) ↔
        ∀ other ∈ (node.preorder depth).map Prod.snd, holds other := List.forall_mem_map.symm
    rw [through depth, same, ← through 0]
  induction nodes with
  | nil => exact iff_of_true (List.forall_mem_nil _) (List.forall_mem_nil _)
  | cons node rest inductionHypothesis =>
      rw [preorderAll, List.forall_mem_append, List.forall_mem_cons, listed depth node]
      exact and_congr_right' inductionHypothesis

theorem allowedThroughout_iff (node : Node) :
    node.AllowedThroughout ↔ node.Allowed ∧ ∀ child ∈ node.children, child.AllowedThroughout := by
  unfold AllowedThroughout
  rw [preorder_eq, List.forall_mem_cons, forall_mem_preorderAll]

/-- The walk that checks every node accepts the trees that the table allows. -/
theorem isValid_iff (node : Node) : node.isValid = true ↔ node.AllowedThroughout := by
  unfold isValid AllowedThroughout
  simp only [List.all_eq_true, Option.isNone_iff_eq_none, firstFault?_eq_none_iff_allowed]

theorem Obtainable.of_checked {node other : Node} (parts : ∀ part ∈ node.children, Obtainable part)
    (made : node.checked = .ok other) : Obtainable other := by
  cases node with
  | identifier name location =>
      obtain ⟨_, rfl⟩ := (checked_eq_ok_iff _ _).mp made
      exact .identifier name location
  | string value location =>
      obtain ⟨_, rfl⟩ := (checked_eq_ok_iff _ _).mp made
      exact .string value location
  | number value location =>
      obtain ⟨_, rfl⟩ := (checked_eq_ok_iff _ _).mp made
      exact .number value location
  | boolean value location =>
      obtain ⟨_, rfl⟩ := (checked_eq_ok_iff _ _).mp made
      exact .boolean value location
  | program body location => exact .program parts made
  | statement form value location =>
      exact .statement (parts value (List.mem_singleton.mpr rfl)) made
  | block body location => exact .block parts made
  | application form head arguments location =>
      obtain ⟨isHead, areArguments⟩ := List.forall_mem_cons.mp parts
      obtain ⟨allowed, isNode⟩ := (checked_eq_ok_iff _ _).mp made
      exact .application isHead areArguments
        ((applicationOfKind_eq_ok_iff _ _ _ _ _).mpr ⟨form, rfl, allowed, isNode⟩)
  | assignment left right location =>
      exact .assignment (parts left List.mem_cons_self)
        (parts right (List.mem_cons_of_mem _ List.mem_cons_self)) made
  | math operator left right location =>
      exact .math (parts left List.mem_cons_self)
        (parts right (List.mem_cons_of_mem _ List.mem_cons_self)) made
  | union members location => exact .union parts made

theorem Obtainable.allowed {node : Node} (obtainable : Obtainable node) :
    node.AllowedThroughout := by
  have leaf {node : Node} (noChild : node.children = []) (noRow : node.kind.table = [])
      (noUnion : ∀ location, node ≠ .union [] location) : node.AllowedThroughout := by
    rw [allowedThroughout_iff, noChild]
    refine ⟨⟨?_, noUnion⟩, List.forall_mem_nil _⟩
    unfold slots
    rw [noRow]
    exact List.forall_mem_nil _
  have parent {node other : Node} (made : node.checked = .ok other)
      (parts : ∀ part ∈ node.children, part.AllowedThroughout) : other.AllowedThroughout := by
    obtain ⟨allowed, rfl⟩ := (checked_eq_ok_iff _ _).mp made
    exact (allowedThroughout_iff _).mpr ⟨allowed, parts⟩
  induction obtainable with
  | identifier => exact leaf rfl rfl nofun
  | string => exact leaf rfl rfl nofun
  | number => exact leaf rfl rfl nofun
  | boolean => exact leaf rfl rfl nofun
  | program _ made parts => exact parent made parts
  | statement _ made part => exact parent made (List.forall_mem_singleton.mpr part)
  | block _ made parts => exact parent made parts
  | application _ _ made isHead parts =>
      obtain ⟨form, _, allowed, isNode⟩ := (applicationOfKind_eq_ok_iff _ _ _ _ _).mp made
      exact parent ((checked_eq_ok_iff _ _).mpr ⟨allowed, isNode⟩)
        (List.forall_mem_cons.mpr ⟨isHead, parts⟩)
  | assignment _ _ made isLeft isRight =>
      exact parent made (List.forall_mem_cons.mpr ⟨isLeft, List.forall_mem_singleton.mpr isRight⟩)
  | math _ _ made isLeft isRight =>
      exact parent made (List.forall_mem_cons.mpr ⟨isLeft, List.forall_mem_singleton.mpr isRight⟩)
  | union _ made parts => exact parent made parts

/-- The constructors build exactly the trees that the table allows. -/
theorem obtainable_iff (node : Node) : Obtainable node ↔ node.AllowedThroughout := by
  refine ⟨Obtainable.allowed, ?_⟩
  induction node using children_induction with
  | parent node inductionHypothesis =>
      intro allowed
      obtain ⟨allowed, parts⟩ := (allowedThroughout_iff node).mp allowed
      exact .of_checked (fun part isPart => inductionHypothesis part isPart (parts part isPart))
        ((checked_eq_ok_iff node node).mpr ⟨allowed, rfl⟩)

end SprigCompiler.Node
