import SprigCompiler.Proofs.Tree.Relocation

/-!
The table of children.

A kind of node has fields in an order, and each field has the kinds that may stand in it.  The rows
of a declaration reach one level deeper than its child: they name the sides of the assignment that
it wraps.  What a constructor refuses is the first child, in the order of the fields, that its row
does not list.
-/

namespace SprigCompiler

structure TableRow where
  field : Field
  kinds : List NodeKind

def NodeKind.table : NodeKind → List TableRow
  | program =>
      [⟨.body, [mainDeclaration, typeDeclaration, letDeclaration, functionDeclaration]⟩]
  | identifier | stringLiteral | numericLiteral | booleanLiteral => []
  | mainDeclaration => [⟨.value, [identifier, functionCallExpression]⟩]
  | typeDeclaration =>
      [⟨.value, [assignmentExpression]⟩,
        ⟨.valueLeft, [identifier, typeParameterExpression]⟩,
        ⟨.valueRight, [identifier, typeInstantiationExpression, unionOperation, stringLiteral,
          numericLiteral, booleanLiteral]⟩]
  | letDeclaration =>
      [⟨.value, [assignmentExpression]⟩,
        ⟨.valueLeft, [identifier]⟩,
        ⟨.valueRight, [identifier, functionCallExpression, mathExpression, stringLiteral,
          numericLiteral, booleanLiteral]⟩]
  | functionDeclaration =>
      [⟨.value, [assignmentExpression]⟩,
        ⟨.valueLeft, [identifier, functionParameterExpression]⟩,
        ⟨.valueRight, [identifier, functionCallExpression, mathExpression, stringLiteral,
          numericLiteral, booleanLiteral, blockStatement]⟩]
  | returnStatement =>
      [⟨.value, [identifier, functionCallExpression, mathExpression, stringLiteral,
        numericLiteral, booleanLiteral]⟩]
  | blockStatement => [⟨.body, [typeDeclaration, letDeclaration, returnStatement]⟩]
  | functionParameterExpression | typeParameterExpression | functionCallExpression
  | typeInstantiationExpression =>
      [⟨.id, [identifier]⟩,
        ⟨.params, [identifier, stringLiteral, numericLiteral, booleanLiteral]⟩]
  | assignmentExpression =>
      [⟨.left, [identifier, functionParameterExpression, typeParameterExpression]⟩,
        ⟨.right, [identifier, functionCallExpression, typeInstantiationExpression, mathExpression,
          unionOperation, blockStatement, stringLiteral, numericLiteral, booleanLiteral]⟩]
  | mathExpression =>
      [⟨.left, [identifier, functionCallExpression, mathExpression, numericLiteral]⟩,
        ⟨.right, [identifier, functionCallExpression, mathExpression, numericLiteral]⟩]
  | unionOperation =>
      [⟨.values, [identifier, typeInstantiationExpression, stringLiteral, numericLiteral,
        booleanLiteral]⟩]

structure Slot where
  row : TableRow
  child : Node

def Slot.Admits (slot : Slot) : Prop := slot.child.kind ∈ slot.row.kinds

namespace Node

def childrenAt : Field → Node → List Node
  | .body, program body _ => body
  | .body, block body _ => body
  | .value, statement _ value _ => [value]
  | .valueLeft, statement _ (assignment left _ _) _ => [left]
  | .valueRight, statement _ (assignment _ right _) _ => [right]
  | .id, application _ head _ _ => [head]
  | .params, application _ _ arguments _ => arguments
  | .left, assignment left _ _ => [left]
  | .left, math _ left _ _ => [left]
  | .right, assignment _ right _ => [right]
  | .right, math _ _ right _ => [right]
  | .values, union members _ => members
  | _, _ => []

def slots (node : Node) : List Slot :=
  node.kind.table.flatMap fun row => (node.childrenAt row.field).map (⟨row, ·⟩)

/-- Whether the table allows a node: each child is of a kind that its row lists, and a union has a
member. -/
def Allowed (node : Node) : Prop :=
  (∀ slot ∈ node.slots, slot.Admits) ∧ ∀ location, node ≠ union [] location

/-- Whether an error tells of the first offence of a node against the table. -/
inductive Offends (node : Node) (error : ValidationError) : Prop where
  | child {before after : List Slot} {slot : Slot} (order : node.slots = before ++ slot :: after)
      (earlier : ∀ other ∈ before, other.Admits) (refused : ¬slot.Admits)
      (parent : error.parent = node.kind) (field : error.field = slot.row.field)
      (expected : error.expected = slot.row.kinds) (found : error.found = some slot.child.kind)
      (located : error.location = slot.child.location)
  | noMember {location : Location} (isEmpty : node = union [] location)
      (parent : error.parent = .unionOperation) (field : error.field = .values)
      (expected : ⟨.values, error.expected⟩ ∈ NodeKind.unionOperation.table)
      (found : error.found = none) (located : error.location = location)

/-! ### The table and the checks -/

theorem admissible_of_mem_table {kind : NodeKind} {row : TableRow} (isRow : row ∈ kind.table) :
    kind.admissible row.field = row.kinds := by
  have each : ∀ row ∈ kind.table, kind.admissible row.field = row.kinds := by
    cases kind <;> decide
  exact each row isRow

theorem mem_table_of_mem_slots {node : Node} {slot : Slot} (isSlot : slot ∈ node.slots) :
    slot.row ∈ node.kind.table := by
  obtain ⟨row, isRow, isChild⟩ := List.mem_flatMap.mp isSlot
  obtain ⟨child, _, rfl⟩ := List.mem_map.mp isChild
  exact isRow

theorem mem_slots_of_order {node : Node} {before after : List Slot} {slot : Slot}
    (order : node.slots = before ++ slot :: after) : ∀ other ∈ before ++ [slot],
      other ∈ node.slots := by
  intro other isEarlier
  rw [order, List.append_cons]
  exact List.mem_append_left _ isEarlier

def slotFault? (parent : NodeKind) (slot : Slot) : Option ValidationError :=
  fault? parent slot.row.field slot.child

theorem slotFault?_eq_none_iff {node : Node} {slot : Slot} (isSlot : slot ∈ node.slots) :
    slotFault? node.kind slot = none ↔ slot.Admits := by
  unfold slotFault? Slot.Admits
  rw [fault?_eq_none_iff, admissible_of_mem_table (mem_table_of_mem_slots isSlot)]

private theorem slotFault?_eq_some_iff {node : Node} {slot : Slot} (isSlot : slot ∈ node.slots)
    (error : ValidationError) :
    slotFault? node.kind slot = some error ↔
      ¬slot.Admits ∧ error.parent = node.kind ∧ error.field = slot.row.field ∧
        error.expected = slot.row.kinds ∧ error.found = some slot.child.kind ∧
        error.location = slot.child.location := by
  have isRow := admissible_of_mem_table (mem_table_of_mem_slots isSlot)
  unfold slotFault? fault? Slot.Admits
  rw [isRow]
  constructor
  · intro faulty
    split at faulty
    · cases faulty
    · rename_i refused
      cases faulty
      exact ⟨refused, rfl, rfl, isRow, rfl, rfl⟩
  · obtain ⟨parent, field, found, location⟩ := error
    rintro ⟨refused, rfl, rfl, -, rfl, rfl⟩
    exact if_neg refused

private theorem findSome?_slotFault? (parent : NodeKind) (row : TableRow) (children : List Node) :
    (children.map (Slot.mk row)).findSome? (slotFault? parent) =
      faultAmong? parent row.field children := by
  rw [List.findSome?_map]
  rfl

theorem faultAmong?_nil (parent : NodeKind) (field : Field) :
    faultAmong? parent field [] = none := rfl

private theorem faultAmong?_singleton (parent : NodeKind) (field : Field) (child : Node) :
    faultAmong? parent field [child] = fault? parent field child := by
  unfold faultAmong?
  rw [List.findSome?_singleton]

/-- Checking a node is looking for the first faulty slot, but for a union without members. -/
theorem firstFault?_eq_findSome? {node : Node} (hasMember : ∀ location, node ≠ union [] location) :
    node.firstFault? = node.slots.findSome? (slotFault? node.kind) := by
  unfold slots
  cases node with
  | union members location =>
      have nonempty : members.isEmpty = false := by
        cases members with
        | nil => exact absurd rfl (hasMember location)
        | cons first rest => rfl
      simp only [firstFault?, nonempty, kind, NodeKind.table, List.flatMap_cons, List.flatMap_nil,
        List.append_nil, findSome?_slotFault?, childrenAt]
      rfl
  | statement form value location =>
      -- Only the statements that declare sides have rows for them.
      cases form <;> cases value <;>
        simp only [firstFault?, kind, StatementForm.kind, StatementForm.declaresSides, if_true,
          Bool.false_eq_true, if_false, sidesFault?, Option.or_none, NodeKind.table,
          List.flatMap_cons, List.flatMap_nil, List.append_nil, List.findSome?_append,
          findSome?_slotFault?, childrenAt, faultAmong?_singleton, faultAmong?_nil]
  | application form head arguments location =>
      cases form <;>
        simp only [firstFault?, kind, ApplicationForm.kind, NodeKind.table, List.flatMap_cons,
          List.flatMap_nil, List.append_nil, List.findSome?_append, findSome?_slotFault?,
          childrenAt, faultAmong?_singleton]
  | _ =>
      simp only [firstFault?, kind, NodeKind.table, List.flatMap_cons, List.flatMap_nil,
        List.append_nil, List.findSome?_append, findSome?_slotFault?, childrenAt,
        faultAmong?_singleton, List.findSome?_nil]

/-- The check finds nothing exactly where the table allows the node. -/
theorem firstFault?_eq_none_iff_allowed (node : Node) : node.firstFault? = none ↔ node.Allowed := by
  by_cases isEmpty : ∃ location, node = union [] location
  · obtain ⟨location, rfl⟩ := isEmpty
    have faulty : firstFault? (union [] location) ≠ none := nofun
    have refused : ¬Allowed (union [] location) := fun allowed => allowed.2 location rfl
    exact iff_of_false faulty refused
  · have hasMember := not_exists.mp isEmpty
    rw [firstFault?_eq_findSome? hasMember, List.findSome?_eq_none_iff]
    constructor
    · intro sound
      exact ⟨fun slot isSlot => (slotFault?_eq_none_iff isSlot).mp (sound slot isSlot), hasMember⟩
    · intro allowed slot isSlot
      exact (slotFault?_eq_none_iff isSlot).mpr (allowed.1 slot isSlot)

/-- The check finds the first offence against the table. -/
theorem firstFault?_eq_some_iff (node : Node) (error : ValidationError) :
    node.firstFault? = some error ↔ node.Offends error := by
  by_cases isEmpty : ∃ location, node = union [] location
  · obtain ⟨location, rfl⟩ := isEmpty
    have expected : ⟨.values, NodeKind.unionOperation.admissible .values⟩ ∈
        NodeKind.unionOperation.table := List.mem_singleton.mpr rfl
    constructor
    · intro faulty
      cases faulty
      exact .noMember rfl rfl rfl expected rfl rfl
    · intro offends
      cases offends with
      | child order =>
          have noSlot : slots (union [] location) = [] := rfl
          rw [noSlot] at order
          cases (List.append_eq_nil_iff.mp order.symm).2
      | noMember isEmpty parent field expected found located =>
          cases isEmpty
          obtain ⟨parent, field, found, location⟩ := error
          subst parent field found located
          rfl
  · have hasMember := not_exists.mp isEmpty
    rw [firstFault?_eq_findSome? hasMember, List.findSome?_eq_some_iff]
    constructor
    · rintro ⟨before, slot, after, order, faulty, sound⟩
      have isSlot := mem_slots_of_order order
      obtain ⟨refused, parent, field, expected, found, located⟩ :=
        (slotFault?_eq_some_iff (isSlot slot List.mem_concat_self) error).mp faulty
      refine .child order (fun other isEarlier => ?_) refused parent field expected found located
      exact (slotFault?_eq_none_iff (isSlot other (List.mem_append_left _ isEarlier))).mp
        (sound other isEarlier)
    · intro offends
      cases offends with
      | noMember isEmpty => exact absurd isEmpty (hasMember _)
      | @child before after slot order earlier refused parent field expected found located =>
          have isSlot := mem_slots_of_order order
          refine ⟨before, slot, after, order, ?_, fun other isEarlier => ?_⟩
          · exact (slotFault?_eq_some_iff (isSlot slot List.mem_concat_self) error).mpr
              ⟨refused, parent, field, expected, found, located⟩
          · exact (slotFault?_eq_none_iff (isSlot other (List.mem_append_left _ isEarlier))).mpr
              (earlier other isEarlier)

end Node

end SprigCompiler
