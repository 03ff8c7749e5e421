import SprigCompiler.Proofs.Tree.Construction

/-!
Where types stand in a tree.

Parameters of types, instances of types and unions only ever stand as a side of an assignment or as
a member of a union.  The table lets a function and a binding wrap no assignment with such a side,
so that in a program these nodes are found below type declarations alone.
-/

namespace SprigCompiler

/-- Whether nodes of a kind tell of types: parameters and instances of types, and unions. -/
def NodeKind.tellsOfTypes : NodeKind → Bool
  | typeParameterExpression | typeInstantiationExpression | unionOperation => true
  | _ => false

namespace Node

/-- Whether a node stands in a tree below some others, the nearest of them first. -/
inductive StandsIn (root : Node) : List Node → Node → Prop where
  | root : StandsIn root [] root
  | child {above : List Node} {parent child : Node} (stands : StandsIn root above parent)
      (isChild : child ∈ parent.children) : StandsIn root (parent :: above) child

/-- Whether a node tells of no type, and has no side that does if it is an assignment. -/
structure FreeOfTypes (node : Node) : Prop where
  plain : node.kind.tellsOfTypes = false
  plainSides : ∀ left right location, node = assignment left right location →
    left.kind.tellsOfTypes = false ∧ right.kind.tellsOfTypes = false

variable {root node child : Node} {above : List Node}

private theorem StandsIn.allowed (stands : StandsIn root above node)
    (allowed : root.AllowedThroughout) :
    node.AllowedThroughout := by
  induction stands with
  | root => exact allowed
  | child _ isChild inductionHypothesis =>
      exact ((allowedThroughout_iff _).mp inductionHypothesis).2 _ isChild

theorem Allowed.kind_mem {row : TableRow} (allowed : node.Allowed) (isRow : row ∈ node.kind.table)
    (isChild : child ∈ node.childrenAt row.field) : child.kind ∈ row.kinds :=
  allowed.1 ⟨row, child⟩ (List.mem_flatMap.mpr ⟨row, isRow, List.mem_map_of_mem isChild⟩)

/-- Every child stands in a row. -/
theorem exists_row_of_mem_children (isChild : child ∈ node.children) :
    ∃ row ∈ node.kind.table, child ∈ node.childrenAt row.field := by
  cases node with
  | program body location => exact ⟨_, List.mem_singleton.mpr rfl, isChild⟩
  | block body location => exact ⟨_, List.mem_singleton.mpr rfl, isChild⟩
  | union members location => exact ⟨_, List.mem_singleton.mpr rfl, isChild⟩
  | statement form value location =>
      cases form <;> exact ⟨_, List.mem_cons_self, isChild⟩
  | application form head arguments location =>
      rcases List.mem_cons.mp isChild with rfl | isArgument
      · cases form <;> exact ⟨_, List.mem_cons_self, List.mem_singleton.mpr rfl⟩
      · cases form <;> exact ⟨_, List.mem_cons_of_mem _ List.mem_cons_self, isArgument⟩
  | assignment left right location =>
      rcases List.mem_pair.mp isChild with rfl | rfl
      · exact ⟨_, List.mem_cons_self, List.mem_singleton.mpr rfl⟩
      · exact ⟨_, List.mem_cons_of_mem _ List.mem_cons_self, List.mem_singleton.mpr rfl⟩
  | math operator left right location =>
      rcases List.mem_pair.mp isChild with rfl | rfl
      · exact ⟨_, List.mem_cons_self, List.mem_singleton.mpr rfl⟩
      · exact ⟨_, List.mem_cons_of_mem _ List.mem_cons_self, List.mem_singleton.mpr rfl⟩
  | _ => cases isChild

/-- Only type declarations, assignments and unions have rows for nodes that tell of types. -/
theorem free_of_mem_table {kind : NodeKind} (noType : kind ≠ .typeDeclaration)
    (noAssignment : kind ≠ .assignmentExpression) (plain : kind.tellsOfTypes = false) :
    ∀ row ∈ kind.table, ∀ other ∈ row.kinds, other.tellsOfTypes = false := by
  cases kind <;> first | contradiction | decide

/-- Only declarations have a row for assignments, the one of their value. -/
theorem declares_of_mem_table {kind : NodeKind} {row : TableRow} (isRow : row ∈ kind.table)
    (lists : .assignmentExpression ∈ row.kinds) :
    kind ∈ [.typeDeclaration, .letDeclaration, .functionDeclaration] := by
  have each : ∀ row ∈ kind.table, .assignmentExpression ∈ row.kinds →
      kind ∈ [.typeDeclaration, .letDeclaration, .functionDeclaration] := by
    cases kind <;> decide
  exact each row isRow lists

theorem FreeOfTypes.of_kind (plain : node.kind.tellsOfTypes = false)
    (noAssignment : node.kind ≠ .assignmentExpression) : FreeOfTypes node where
  plain := plain
  plainSides := by
    rintro left right location rfl
    exact absurd rfl noAssignment

/-- The assignment that a binding or a function wraps has no side that tells of types. -/
theorem Allowed.sides_free {form : StatementForm} {left right : Node} {between place : Location}
    (allowed : (statement form (assignment left right between) place).Allowed)
    (noType : form ≠ .type) (declares : form.declaresSides = true) :
    left.kind.tellsOfTypes = false ∧ right.kind.tellsOfTypes = false := by
  have noKind : form.kind ≠ .typeDeclaration := by
    cases form <;> first | contradiction | decide
  have noAssignment : form.kind ≠ .assignmentExpression := by
    cases form <;> decide
  have plain : form.kind.tellsOfTypes = false := by
    cases form <;> rfl
  have listed := free_of_mem_table noKind noAssignment plain
  have isPlain : ∀ field side, side ∈ childrenAt field
      (statement form (assignment left right between) place) →
        (∃ kinds, ⟨field, kinds⟩ ∈ form.kind.table) → side.kind.tellsOfTypes = false := by
    rintro field side isSide ⟨kinds, isRow⟩
    exact listed _ isRow _ (allowed.kind_mem isRow isSide)
  have rows : (∃ kinds, ⟨.valueLeft, kinds⟩ ∈ form.kind.table) ∧
      ∃ kinds, ⟨.valueRight, kinds⟩ ∈ form.kind.table := by
    cases form with
    | main => cases declares
    | result => cases declares
    | _ =>
        exact ⟨⟨_, List.mem_cons_of_mem _ List.mem_cons_self⟩,
          ⟨_, List.mem_cons_of_mem _ (List.mem_cons_of_mem _ List.mem_cons_self)⟩⟩
  exact ⟨isPlain .valueLeft left List.mem_cons_self rows.1,
    isPlain .valueRight right List.mem_cons_self rows.2⟩

/-- A node with a declaration's kind is a statement that declares sides. -/
theorem exists_statement_of_kind
    (declares : node.kind ∈ [.typeDeclaration, .letDeclaration, .functionDeclaration]) :
    ∃ form value place, node = statement form value place ∧ form.declaresSides = true := by
  cases node with
  | statement form value place =>
      refine ⟨form, value, place, rfl, ?_⟩
      cases form <;> first | rfl | simp [kind, StatementForm.kind] at declares
  | application form => cases form <;> simp [kind, ApplicationForm.kind] at declares
  | _ => simp [kind] at declares

theorem exists_assignment_of_kind (isAssignment : node.kind = .assignmentExpression) :
    ∃ left right place, node = assignment left right place := by
  cases node with
  | assignment left right place => exact ⟨left, right, place, rfl⟩
  | statement form => cases form <;> cases isAssignment
  | application form => cases form <;> cases isAssignment
  | _ => cases isAssignment

/-- Below a node that is free of types and declares none, the children are free of types too. -/
theorem FreeOfTypes.below (free : FreeOfTypes node) (allowed : node.Allowed)
    (noType : node.kind ≠ .typeDeclaration) (isChild : child ∈ node.children) :
    FreeOfTypes child := by
  obtain ⟨row, isRow, isThere⟩ := exists_row_of_mem_children isChild
  have isListed := allowed.kind_mem isRow isThere
  by_cases isAssignment : node.kind = .assignmentExpression
  · -- The sides of an assignment are known to be plain, and are no assignments themselves.
    obtain ⟨left, right, place, rfl⟩ := exists_assignment_of_kind isAssignment
    have noAssignment : child.kind ≠ .assignmentExpression := by
      intro isAgain
      exact absurd (declares_of_mem_table isRow (isAgain ▸ isListed)) (by simp [kind])
    obtain ⟨plainLeft, plainRight⟩ := free.plainSides left right place rfl
    rcases List.mem_pair.mp isChild with rfl | rfl
    · exact .of_kind plainLeft noAssignment
    · exact .of_kind plainRight noAssignment
  · refine ⟨free_of_mem_table noType isAssignment free.plain row isRow _ isListed, ?_⟩
    rintro left right location rfl
    obtain ⟨form, value, place, rfl, declares⟩ :=
      exists_statement_of_kind (declares_of_mem_table isRow isListed)
    cases List.mem_singleton.mp isChild
    refine allowed.sides_free ?_ declares
    rintro rfl
    exact noType rfl

/-- In a program that the table allows, what tells of types stands below a type declaration. -/
theorem StandsIn.below_typeDeclaration (stands : StandsIn root above node)
    (isProgram : root.kind = .program) (allowed : root.AllowedThroughout)
    (tells : node.kind.tellsOfTypes = true) :
    ∃ declaration ∈ above, declaration.kind = .typeDeclaration := by
  by_contra noDeclaration
  have noType : ∀ other ∈ above, other.kind ≠ .typeDeclaration :=
    fun other isAbove isType => noDeclaration ⟨other, isAbove, isType⟩
  have free : FreeOfTypes node := by
    clear tells noDeclaration
    induction stands with
    | root => exact .of_kind (by rw [isProgram]; rfl) (by rw [isProgram]; decide)
    | child stands isChild inductionHypothesis =>
        obtain ⟨noParent, noOther⟩ := List.forall_mem_cons.mp noType
        exact (inductionHypothesis noOther).below
          ((allowedThroughout_iff _).mp (stands.allowed allowed)).1 noParent isChild
  rw [free.plain] at tells
  cases tells

end Node

end SprigCompiler
