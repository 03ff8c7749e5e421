import SprigCompiler.Proofs.Grammar.Trees

/-!
Expressions: what the parser reads where a value, a type or a whole assignment may stand.

The parser reads all of them in the same way and leaves it to the table of admissible children to
refuse what does not belong.  So expressions are looser than the grammar, and each lemma below says
what is left of them under one entry of the table.
-/

namespace SprigCompiler.Grammar

/-- An expression whose first name has a form of its own, while all further names have the form
`inner`.  Its operations hold admissible children only. -/
inductive Expression (inner : ApplicationForm) :
    ApplicationForm → List Lexeme → Node → Prop where
  | term {outer : ApplicationForm} {lexemes : List Lexeme} {node : Node}
      (term : Term outer lexemes node) : Expression inner outer lexemes node
  | math {outer : ApplicationForm} {lexemes rest : List Lexeme} {left right : Node}
      {sign : Operator} {operator : MathOperator} (text : String) (place : Location)
      (term : Term outer lexemes left)
      (arithmetic : MathOperator.ofOperator? sign = some operator)
      (expression : Expression inner inner rest right)
      (sound : (Node.math operator left right place).firstFault? = none) :
      Expression inner outer (lexemes ++ ⟨.operator sign, text⟩ :: rest)
        (.math operator left right place)
  | assignment {outer : ApplicationForm} {lexemes rest : List Lexeme} {left right : Node}
      (equals : String) (place : Location) (term : Term outer lexemes left)
      (expression : Expression inner inner rest right)
      (sound : (Node.assignment left right place).firstFault? = none) :
      Expression inner outer (lexemes ++ ⟨.operator .assign, equals⟩ :: rest)
        (.assignment left right place)
  | union {outer : ApplicationForm} {lexemes rest : List Lexeme} {first : Node}
      {others : List Node} (bar : String) (place : Location) (term : Term outer lexemes first)
      (members : Members inner rest others)
      (sound : (Node.union (first :: others) place).firstFault? = none) :
      Expression inner outer (lexemes ++ ⟨.operator .union, bar⟩ :: rest)
        (.union (first :: others) place)
  | block {outer : ApplicationForm} {lexemes : List Lexeme} {node : Node}
      (block : Block lexemes node) : Expression inner outer lexemes node

private theorem Term.operand {lexemes : List Lexeme} {node : Node}
    (derivation : Term .call lexemes node)
    (admitted : node.kind ∈ NodeKind.mathExpression.admissible .left) :
    Operand lexemes node := by
  cases derivation with
  | named derivation => exact .named derivation
  | literal derivation =>
      cases derivation with
      | number text value place numeral => exact .number (.number text value place numeral)
      | string => simp [Node.kind, NodeKind.admissible] at admitted
      | boolean => simp [Node.kind, NodeKind.admissible] at admitted

private theorem Expression.chain {inner outer : ApplicationForm} {lexemes : List Lexeme}
    {node : Node} (derivation : Expression inner outer lexemes node) (isInner : inner = .call)
    (isOuter : outer = .call)
    (admitted : node.kind ∈ NodeKind.mathExpression.admissible .right) : Chain lexemes node := by
  induction derivation with
  | term term =>
      subst isOuter
      exact .last (term.operand admitted)
  | math text place term arithmetic _ sound inductionHypothesis =>
      subst isOuter
      unfold Node.firstFault? at sound
      rw [Option.or_eq_none_iff, Node.fault?_eq_none_iff, Node.fault?_eq_none_iff] at sound
      have operand := term.operand sound.1
      have chain := inductionHypothesis isInner sound.2
      exact .link text place operand arithmetic chain
  | assignment => simp [Node.kind, NodeKind.admissible] at admitted
  | union => simp [Node.kind, NodeKind.admissible] at admitted
  | block block =>
      cases block
      simp [Node.kind, NodeKind.admissible] at admitted

private theorem Expression.value {lexemes : List Lexeme} {node : Node}
    (derivation : Expression .call .call lexemes node)
    (admitted : node.kind ∈ NodeKind.computed) : Value lexemes node := by
  cases derivation with
  | term term => exact .term term
  | math text place term arithmetic expression sound =>
      unfold Node.firstFault? at sound
      rw [Option.or_eq_none_iff, Node.fault?_eq_none_iff, Node.fault?_eq_none_iff] at sound
      have operand := term.operand sound.1
      have chain := expression.chain rfl rfl sound.2
      exact .chain text place operand arithmetic chain
  | assignment => simp [Node.kind, NodeKind.computed, NodeKind.literals] at admitted
  | union => simp [Node.kind, NodeKind.computed, NodeKind.literals] at admitted
  | block block =>
      cases block
      simp [Node.kind, NodeKind.computed, NodeKind.literals] at admitted

private theorem Expression.functionBody {lexemes : List Lexeme} {node : Node}
    (derivation : Expression .call .call lexemes node)
    (admitted : node.kind ∈ NodeKind.functionDeclaration.admissible .valueRight) :
    FunctionBody lexemes node := by
  have kinds : node.kind ∈ NodeKind.computed ∨ node.kind = .blockStatement := by
    simpa [NodeKind.admissible] using admitted
  rcases kinds with isComputed | isBlock
  · exact .value (derivation.value isComputed)
  · cases derivation with
    | block block => exact .block block
    | term term =>
        have termKind := term.kind_mem
        rw [isBlock] at termKind
        simp [ApplicationForm.kind, NodeKind.literals] at termKind
    | math => cases isBlock
    | assignment => cases isBlock
    | union => cases isBlock

private theorem Expression.typeBody {lexemes : List Lexeme} {node : Node}
    (derivation : Expression .instantiation .instantiation lexemes node)
    (admitted : node.kind ∈ NodeKind.typeDeclaration.admissible .valueRight) :
    TypeBody lexemes node := by
  cases derivation with
  | term term => exact .member term
  | union bar place term members sound => exact .union bar place term members
  | math => simp [Node.kind, NodeKind.admissible, NodeKind.literals] at admitted
  | assignment => simp [Node.kind, NodeKind.admissible, NodeKind.literals] at admitted
  | block block =>
      cases block
      simp [Node.kind, NodeKind.admissible, NodeKind.literals] at admitted

theorem Term.named_of_kind {form : ApplicationForm} {lexemes : List Lexeme} {node : Node}
    (derivation : Term form lexemes node) (admitted : node.kind ∈ [.identifier, form.kind]) :
    Named form lexemes node := by
  cases derivation with
  | named derivation => exact derivation
  | literal derivation =>
      cases derivation <;> cases form <;> simp [Node.kind, ApplicationForm.kind] at admitted

theorem Term.name_of_kind {form : ApplicationForm} {lexemes : List Lexeme} {node : Node}
    (derivation : Term form lexemes node) (admitted : node.kind = .identifier) :
    Name lexemes node := by
  cases derivation with
  | named derivation =>
      cases derivation with
      | name text place => exact .name text place
      | application => cases form <;> cases admitted
  | literal derivation => cases derivation <;> cases admitted

private theorem Expression.assignment_of_kind {inner outer : ApplicationForm}
    {lexemes : List Lexeme} {node : Node} (derivation : Expression inner outer lexemes node)
    (isAssignment : node.kind = .assignmentExpression) :
    ∃ before equals after left right place,
      lexemes = before ++ ⟨.operator .assign, equals⟩ :: after ∧
        node = .assignment left right place ∧ Term outer before left ∧
        Expression inner inner after right := by
  cases derivation with
  | assignment equals place term expression sound =>
      exact ⟨_, equals, _, _, _, place, rfl, rfl, term, expression⟩
  | term term =>
      have termKind := term.kind_mem
      rw [isAssignment] at termKind
      cases outer <;> simp [ApplicationForm.kind, NodeKind.literals] at termKind
  | math => cases isAssignment
  | union => cases isAssignment
  | block block =>
      cases block
      cases isAssignment

/-- A declaration is its keyword in front of an expression, when the grammar allows on either side
of the equals sign what the table allows there. -/
theorem declaration_of_expression {inner outer : ApplicationForm} {word : Keyword}
    {form : StatementForm} {Left Right : List Lexeme → Node → Prop} {lexemes : List Lexeme}
    {value : Node} {place : Location} (text : String) (declares : form.declaresSides = true)
    (assigns : form.kind.admissible .value = [.assignmentExpression])
    (derivation : Expression inner outer lexemes value)
    (sound : (Node.statement form value place).firstFault? = none)
    (lefts : ∀ {lexemes : List Lexeme} {node : Node}, Term outer lexemes node →
      node.kind ∈ form.kind.admissible .valueLeft → Left lexemes node)
    (rights : ∀ {lexemes : List Lexeme} {node : Node}, Expression inner inner lexemes node →
      node.kind ∈ form.kind.admissible .valueRight → Right lexemes node) :
    Declaration word form Left Right (⟨.keyword word, text⟩ :: lexemes)
      (.statement form value place) := by
  unfold Node.firstFault? at sound
  rw [Option.or_eq_none_iff, Node.fault?_eq_none_iff, assigns, declares, if_pos rfl] at sound
  obtain ⟨isAssignment, sides⟩ := sound
  rw [List.mem_singleton] at isAssignment
  obtain ⟨before, equals, after, left, right, between, rfl, rfl, term, expression⟩ :=
    derivation.assignment_of_kind isAssignment
  unfold Node.sidesFault? at sides
  rw [Option.or_eq_none_iff, Node.fault?_eq_none_iff, Node.fault?_eq_none_iff] at sides
  exact .declare text equals between place (lefts term sides.1) (rights expression sides.2)

theorem typeDeclaration_of_expression {lexemes : List Lexeme} {value : Node} {place : Location}
    (text : String) (derivation : Expression .instantiation .typeParameters lexemes value)
    (sound : (Node.statement .type value place).firstFault? = none) :
    TypeDeclaration (⟨.keyword .typeWord, text⟩ :: lexemes) (.statement .type value place) :=
  declaration_of_expression text rfl rfl derivation sound Term.named_of_kind Expression.typeBody

theorem letDeclaration_of_expression {lexemes : List Lexeme} {value : Node} {place : Location}
    (text : String) (derivation : Expression .call .call lexemes value)
    (sound : (Node.statement .binding value place).firstFault? = none) :
    LetDeclaration (⟨.keyword .letWord, text⟩ :: lexemes) (.statement .binding value place) :=
  declaration_of_expression text rfl rfl derivation sound
    (fun term admitted => term.name_of_kind (List.mem_singleton.mp admitted)) Expression.value

theorem functionDeclaration_of_expression {word : Keyword} {lexemes : List Lexeme} {value : Node}
    {place : Location} (text : String)
    (derivation : Expression .call .functionParameters lexemes value)
    (sound : (Node.statement .function value place).firstFault? = none) :
    FunctionDeclaration word (⟨.keyword word, text⟩ :: lexemes)
      (.statement .function value place) :=
  declaration_of_expression text rfl rfl derivation sound Term.named_of_kind
    Expression.functionBody

theorem return_of_expression {lexemes : List Lexeme} {value : Node} {place : Location}
    (text : String) (derivation : Expression .call .call lexemes value)
    (sound : (Node.statement .result value place).firstFault? = none) :
    Return (⟨.keyword .returnWord, text⟩ :: lexemes) (.statement .result value place) := by
  unfold Node.firstFault? at sound
  rw [Option.or_eq_none_iff, Node.fault?_eq_none_iff] at sound
  exact .value text place (derivation.value sound.1)

end SprigCompiler.Grammar
