import SprigCompiler.Proofs.Grammar.Basic
import SprigCompiler.Proofs.Tree.Relocation

/-!
The trees of derivations.

Each rule of the grammar gives trees of a few kinds only, and these are kinds that the table of
admissible children allows where the rule puts them.
-/

namespace SprigCompiler.Grammar

theorem Literal.kind_mem {lexeme : Lexeme} {node : Node} (derivation : Literal lexeme node) :
    node.kind ∈ NodeKind.literals := by
  cases derivation <;> simp [Node.kind, NodeKind.literals]

theorem Atom.kind_mem {lexeme : Lexeme} {node : Node} (derivation : Atom lexeme node) :
    node.kind ∈ NodeKind.identifier :: NodeKind.literals := by
  cases derivation with
  | name => exact List.mem_cons_self
  | literal derivation => exact List.mem_cons_of_mem _ derivation.kind_mem

private theorem Listed.kind_mem {lexemes : List Lexeme} {nodes : List Node}
    (derivation : Listed lexemes nodes) :
    ∀ node ∈ nodes, node.kind ∈ NodeKind.identifier :: NodeKind.literals := by
  induction derivation with
  | last atom =>
      intro node isMember
      rw [List.mem_singleton.mp isMember]
      exact atom.kind_mem
  | more comma atom _ inductionHypothesis =>
      intro node isMember
      rcases List.mem_cons.mp isMember with rfl | isLater
      · exact atom.kind_mem
      · exact inductionHypothesis node isLater

private theorem kind_mem_of_row {lexemes : List Lexeme} {nodes : List Node}
    (derivations : List.Forall₂ Atom lexemes nodes) :
    ∀ node ∈ nodes, node.kind ∈ NodeKind.identifier :: NodeKind.literals := by
  induction derivations with
  | nil => exact nofun
  | cons atom _ inductionHypothesis =>
      intro node isMember
      rcases List.mem_cons.mp isMember with rfl | isLater
      · exact atom.kind_mem
      · exact inductionHypothesis node isLater

private theorem Arguments.kind_mem {form : ApplicationForm} {lexemes : List Lexeme}
    {nodes : List Node} (derivation : Arguments form lexemes nodes) :
    ∀ node ∈ nodes, node.kind ∈ NodeKind.identifier :: NodeKind.literals := by
  cases derivation with
  | row first others => exact kind_mem_of_row (.cons first others)
  | empty => exact nofun
  | listed _ _ _ derivation => exact derivation.kind_mem

theorem Named.kind_mem {form : ApplicationForm} {lexemes : List Lexeme} {node : Node}
    (derivation : Named form lexemes node) : node.kind ∈ [.identifier, form.kind] := by
  cases derivation <;> simp [Node.kind]

theorem Operand.kind_mem {lexemes : List Lexeme} {node : Node}
    (derivation : Operand lexemes node) :
    node.kind ∈ NodeKind.mathExpression.admissible .left := by
  cases derivation with
  | named derivation =>
      have kinds := derivation.kind_mem
      simp only [ApplicationForm.kind, List.mem_cons, List.not_mem_nil, or_false] at kinds
      rcases kinds with isName | isCall
      · rw [isName]; decide
      · rw [isCall]; decide
  | number derivation =>
      cases derivation
      exact List.elem_iff.mp rfl

theorem Chain.kind_mem {lexemes : List Lexeme} {node : Node} (derivation : Chain lexemes node) :
    node.kind ∈ NodeKind.mathExpression.admissible .right := by
  cases derivation with
  | last operand => exact operand.kind_mem
  | link => exact List.elem_iff.mp rfl

theorem Term.kind_mem {form : ApplicationForm} {lexemes : List Lexeme} {node : Node}
    (derivation : Term form lexemes node) :
    node.kind ∈ .identifier :: form.kind :: NodeKind.literals := by
  cases derivation with
  | named derivation => exact List.mem_append_left NodeKind.literals derivation.kind_mem
  | literal derivation =>
      exact List.mem_append_right [.identifier, form.kind] derivation.kind_mem

theorem Value.kind_mem {lexemes : List Lexeme} {node : Node} (derivation : Value lexemes node) :
    node.kind ∈ NodeKind.computed := by
  cases derivation with
  | term derivation =>
      have kinds := derivation.kind_mem
      revert kinds
      generalize node.kind = kind
      revert kind
      decide
  | chain => simp [Node.kind, NodeKind.computed]

theorem Term.kind_mem_union {lexemes : List Lexeme} {node : Node}
    (derivation : Term .instantiation lexemes node) :
    node.kind ∈ NodeKind.unionOperation.admissible .values := derivation.kind_mem

theorem Members.kind_mem {lexemes : List Lexeme} {nodes : List Node}
    (derivation : Members .instantiation lexemes nodes) :
    ∀ node ∈ nodes, node.kind ∈ NodeKind.unionOperation.admissible .values := by
  induction derivation with
  | nothing => exact nofun
  | last member =>
      intro node isMember
      rw [List.mem_singleton.mp isMember]
      exact member.kind_mem_union
  | more bar member _ inductionHypothesis =>
      intro node isMember
      rcases List.mem_cons.mp isMember with rfl | isLater
      · exact member.kind_mem_union
      · exact inductionHypothesis node isLater

theorem TypeBody.kind_mem {lexemes : List Lexeme} {node : Node}
    (derivation : TypeBody lexemes node) :
    node.kind ∈ NodeKind.typeDeclaration.admissible .valueRight := by
  cases derivation with
  | member member =>
      have kinds := member.kind_mem_union
      revert kinds
      generalize node.kind = kind
      revert kind
      decide
  | union => exact List.elem_iff.mp rfl

theorem FunctionBody.kind_mem {lexemes : List Lexeme} {node : Node}
    (derivation : FunctionBody lexemes node) :
    node.kind ∈ NodeKind.functionDeclaration.admissible .valueRight := by
  cases derivation with
  | value derivation => exact List.mem_append_left _ derivation.kind_mem
  | block derivation =>
      cases derivation
      exact List.elem_iff.mp rfl

theorem Inner.kind_mem {lexemes : List Lexeme} {node : Node} (derivation : Inner lexemes node) :
    node.kind ∈ NodeKind.blockStatement.admissible .body := by
  cases derivation with
  | type declaration =>
      cases declaration
      exact List.elem_iff.mp rfl
  | binding declaration =>
      cases declaration
      exact List.elem_iff.mp rfl
  | result result =>
      cases result
      exact List.elem_iff.mp rfl

theorem Statement.kind_mem {lexemes : List Lexeme} {node : Node}
    (derivation : Statement lexemes node) :
    node.kind ∈ NodeKind.program.admissible .body := by
  cases derivation with
  | main main =>
      cases main <;> exact List.elem_iff.mp rfl
  | type declaration =>
      cases declaration
      exact List.elem_iff.mp rfl
  | binding declaration =>
      cases declaration
      exact List.elem_iff.mp rfl
  | function isFun declaration =>
      cases declaration
      exact List.elem_iff.mp rfl

theorem Sequence.kind_mem {Item : List Lexeme → Node → Prop} {parent : NodeKind} {field : Field}
    {lexemes : List Lexeme} {nodes : List Node} (derivation : Sequence Item lexemes nodes)
    (items : ∀ {lexemes : List Lexeme} {node : Node}, Item lexemes node →
      node.kind ∈ parent.admissible field) :
    ∀ node ∈ nodes, node.kind ∈ parent.admissible field := by
  induction derivation with
  | nil => exact nofun
  | cons item _ inductionHypothesis =>
      intro node isMember
      rcases List.mem_cons.mp isMember with rfl | isLater
      · exact items item
      · exact inductionHypothesis node isLater

theorem Arguments.sound {form : ApplicationForm} {lexemes : List Lexeme} {nodes : List Node}
    (text : String) (place extent : Location) (derivation : Arguments form lexemes nodes) :
    (Node.application form (.identifier text place) nodes extent).firstFault? = none := by
  have atId : form.kind.admissible .id = [.identifier] := by cases form <;> rfl
  have atParams : form.kind.admissible .params = .identifier :: NodeKind.literals := by
    cases form <;> rfl
  unfold Node.firstFault?
  rw [Option.or_eq_none_iff, Node.fault?_eq_none_iff, Node.faultAmong?_eq_none_iff, atId, atParams]
  exact ⟨List.mem_singleton_self _, derivation.kind_mem⟩

theorem sound_math {left right : Node} (operator : MathOperator) (place : Location)
    (lefts : left.kind ∈ NodeKind.mathExpression.admissible .left)
    (rights : right.kind ∈ NodeKind.mathExpression.admissible .right) :
    (Node.math operator left right place).firstFault? = none := by
  unfold Node.firstFault?
  rw [Option.or_eq_none_iff, Node.fault?_eq_none_iff, Node.fault?_eq_none_iff]
  exact ⟨lefts, rights⟩

theorem sound_union {first : Node} {others : List Node} (place : Location)
    (members : ∀ node ∈ first :: others, node.kind ∈ NodeKind.unionOperation.admissible .values) :
    (Node.union (first :: others) place).firstFault? = none := by
  unfold Node.firstFault?
  simp only [List.isEmpty_cons, Bool.false_eq_true, if_false]
  exact (Node.faultAmong?_eq_none_iff _ _ _).mpr members

theorem sound_assignment {form : StatementForm} {left right : Node} (place : Location)
    (lefts : left.kind ∈ form.kind.admissible .valueLeft)
    (rights : right.kind ∈ form.kind.admissible .valueRight) :
    (Node.assignment left right place).firstFault? = none := by
  have atLeft : ∀ kind ∈ form.kind.admissible .valueLeft,
      kind ∈ NodeKind.assignmentExpression.admissible .left := by
    cases form <;> decide
  have atRight : ∀ kind ∈ form.kind.admissible .valueRight,
      kind ∈ NodeKind.assignmentExpression.admissible .right := by
    cases form <;> decide
  unfold Node.firstFault?
  rw [Option.or_eq_none_iff, Node.fault?_eq_none_iff, Node.fault?_eq_none_iff]
  exact ⟨atLeft _ lefts, atRight _ rights⟩

theorem sound_declaration {form : StatementForm} {left right : Node} (place extent : Location)
    (declares : form.declaresSides = true)
    (lefts : left.kind ∈ form.kind.admissible .valueLeft)
    (rights : right.kind ∈ form.kind.admissible .valueRight) :
    (Node.statement form (.assignment left right place) extent).firstFault? = none := by
  have atValue : NodeKind.assignmentExpression ∈ form.kind.admissible .value := by
    cases form <;> first | decide | cases declares
  unfold Node.firstFault? Node.sidesFault?
  rw [Option.or_eq_none_iff, Node.fault?_eq_none_iff, declares, if_pos rfl,
    Option.or_eq_none_iff, Node.fault?_eq_none_iff, Node.fault?_eq_none_iff]
  exact ⟨atValue, lefts, rights⟩

theorem sound_return {value : Node} (place : Location) (computed : value.kind ∈ NodeKind.computed) :
    (Node.statement .result value place).firstFault? = none := by
  unfold Node.firstFault?
  rw [Option.or_eq_none_iff, Node.fault?_eq_none_iff]
  exact ⟨computed, rfl⟩

end SprigCompiler.Grammar
