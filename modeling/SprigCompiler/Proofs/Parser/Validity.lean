import SprigCompiler.Proofs.Parser.Lookahead
import SprigCompiler.Proofs.Parser.Texts
import SprigCompiler.Proofs.Tree.Types

/-!
What the parser builds is valid.

Every node comes from a constructor, and each step hands only such nodes on.  So every tree that a
call gives can be built by constructors, whatever the tokens are, and the table allows it at every
node.
-/

namespace SprigCompiler.Parse

variable {Result First Second : Type} {holds : Result → Prop} {head : Token} {fuel : Nat}

structure Ensures (step : Parse Result) (holds : Result → Prop) : Prop where
  result : ∀ {parser behind : Parser} {result : Result},
    step parser = (.ok result, behind) → holds result

def AllObtainable (nodes : List Node) : Prop := ∀ node ∈ nodes, node.Obtainable

theorem AllObtainable.nil : AllObtainable [] := List.forall_mem_nil _

theorem AllObtainable.cons {node : Node} {nodes : List Node} (first : node.Obtainable)
    (others : AllObtainable nodes) : AllObtainable (node :: nodes) :=
  List.forall_mem_cons.mpr ⟨first, others⟩

theorem AllObtainable.pair {left right : Node} (isLeft : left.Obtainable)
    (isRight : right.Obtainable) : AllObtainable [left, right] :=
  .cons isLeft (.cons isRight .nil)

protected theorem Ensures.pure {result : Result} (known : holds result) :
    Ensures (pure result) holds := by
  constructor
  intro parser behind found ran
  cases ran
  exact known

protected theorem Ensures.fail (error : ParseError) : Ensures (fail error) holds := by
  constructor
  intro parser behind result ran
  cases ran

protected theorem Ensures.unexpectedEnd : Ensures unexpectedEnd holds := by
  constructor
  intro parser behind result ran
  cases ran

protected theorem Ensures.bind {step : Parse First} {rest : First → Parse Second}
    {early : First → Prop} {late : Second → Prop} (first : Ensures step early)
    (second : ∀ result, early result → Ensures (rest result) late) :
    Ensures (step >>= rest) late := by
  constructor
  intro parser behind final ran
  obtain ⟨result, middle, ranFirst, ranSecond⟩ := bind_eq_ok ran
  exact (second result (first.result ranFirst)).result ranSecond

theorem Ensures.after {step : Parse First} {rest : First → Parse Second} {late : Second → Prop}
    (second : ∀ result, Ensures (rest result) late) : Ensures (step >>= rest) late :=
  have first : Ensures step fun _ => True := ⟨fun _ => trivial⟩
  first.bind fun result _ => second result

protected theorem Ensures.mapError {step : Parse Result} (first : Ensures step holds)
    (change : ParseError → ParseError) : Ensures (step.mapError change) holds :=
  ⟨fun ran => first.result (mapError_eq_ok.mp ran)⟩

protected theorem Ensures.build {node : Node} (parts : AllObtainable node.children) :
    Ensures (build node) Node.Obtainable := by
  constructor
  intro parser behind found ran
  obtain ⟨sound, rfl, rfl⟩ := build_eq_ok ran
  refine .of_checked parts ((Node.checked_eq_ok_iff _ _).mpr ⟨?_, rfl⟩)
  exact (Node.firstFault?_eq_none_iff_allowed _).mp sound

private theorem ensures_literal (token : Token) : Ensures (literal token) Node.Obtainable := by
  unfold literal
  split
  · exact .pure (.string _ _)
  · split
    · exact .pure (.number _ _)
    · exact .fail _
  · exact .pure (.boolean _ _)
  · exact .fail _

private theorem ensures_atom (token : Token) : Ensures (atom token) Node.Obtainable := by
  unfold atom
  split
  · exact .pure (.identifier _ _)
  · exact ensures_literal token

private theorem ensures_argumentRow (count : Nat) : Ensures (argumentRow count) AllObtainable := by
  induction count with
  | zero => exact .pure .nil
  | succ count inductionHypothesis =>
      refine .after fun found => ?_
      cases found with
      | none => exact .pure .nil
      | some token =>
          refine .bind (ensures_atom token) fun argument isArgument => ?_
          exact .bind inductionHypothesis fun rest areRest => .pure (.cons isArgument areRest)

private theorem ensures_argumentsUpTo (closing : TokenKind) (count : Nat) :
    Ensures (argumentsUpTo closing count) fun found => AllObtainable found.1 := by
  induction count with
  | zero => exact .unexpectedEnd
  | succ count inductionHypothesis =>
      refine .after fun token => ?_
      split
      · refine .bind (ensures_atom token) fun argument isArgument => ?_
        refine .after fun separator => ?_
        split
        · exact .pure (.cons isArgument .nil)
        · split
          · exact .bind inductionHypothesis fun rest areRest => .pure (.cons isArgument areRest)
          · exact .fail _
      · exact .fail _

private theorem ensures_delimitedArguments (closing : TokenKind) :
    Ensures (delimitedArguments closing) fun found => AllObtainable found.1 := by
  refine .after fun _ => .after fun found => ?_
  cases found with
  | some token => exact .pure .nil
  | none => exact .after fun count => ensures_argumentsUpTo closing count

private theorem ensures_named (head : Token) : Ensures (named head) Node.Obtainable := by
  have isName := Node.Obtainable.identifier head.text head.location
  refine .after fun cursor => .after fun opening => ?_
  dsimp only
  split
  · rename_i closing _
    exact .bind (ensures_delimitedArguments closing) fun found areFound =>
      .build (.cons isName areFound)
  · refine .after fun count => .bind (ensures_argumentRow count) fun found areFound => ?_
    split
    · exact .pure isName
    · exact .build (.cons isName areFound)

private theorem ensures_operand (head : Token) : Ensures (operand head) Node.Obtainable := by
  by_cases isName : head.kind = .identifier
  · rw [operand_eq_named isName]
    exact ensures_named head
  · rw [operand_eq_literal isName]
    exact ensures_literal head

private theorem ensures_unionMembers (count : Nat) :
    Ensures (unionMembers count) AllObtainable := by
  induction count with
  | zero => exact .pure .nil
  | succ count inductionHypothesis =>
      refine .after fun found => ?_
      cases found with
      | none => exact .pure .nil
      | some token =>
          refine .bind (ensures_operand token) fun member isMember => .after fun bar => ?_
          cases bar with
          | none => exact .pure (.cons isMember .nil)
          | some _ =>
              exact .bind inductionHypothesis fun rest areRest => .pure (.cons isMember areRest)

private theorem ensures_union {first : Node} (isFirst : first.Obtainable) :
    Ensures (union first) Node.Obtainable :=
  .after fun count => .bind (ensures_unionMembers count) fun _ areMembers =>
    .build (.cons isFirst areMembers)

private theorem ensures_calledValue {value : Node} (isValue : value.Obtainable) :
    Ensures (calledValue value) Node.Obtainable := by
  unfold calledValue
  split
  · exact .build (.cons isValue .nil)
  · exact .pure isValue

private theorem ensures_blockOf (opening : Token) {inside : Parse (List Node × Location)}
    (body : Ensures inside fun found => AllObtainable found.1) :
    Ensures (blockOf opening inside) Node.Obtainable :=
  .bind body fun _ areFound => .build areFound

private theorem ensures_statementOf (form : StatementForm) (head : Token) {value : Parse Node}
    (ensures : Ensures value Node.Obtainable) :
    Ensures (statementOf form head value) Node.Obtainable :=
  .bind ensures fun _ isValue => .build (.cons isValue .nil)

private theorem ensures_binding (sign : Operator) {left : Node} {right : Token → Parse Node}
    (isLeft : left.Obtainable) (ensures : ∀ token, Ensures (right token) Node.Obtainable) :
    Ensures (binding sign left right) Node.Obtainable := by
  unfold binding
  split
  · exact ensures_union isLeft
  · exact .after fun token => .bind (ensures token) fun found isFound =>
      .build (.pair isLeft isFound)

structure EnsuresObtainable (fuel : Nat) : Prop where
  statement : ∀ head, Ensures (statementWith fuel head) Node.Obtainable
  block : ∀ opening, Ensures (blockStatementsWith fuel opening) fun found => AllObtainable found.1
  expression : ∀ head, Ensures (expressionWith fuel head) Node.Obtainable
  tail : ∀ left, left.Obtainable → Ensures (tailWith fuel left) Node.Obtainable

private theorem ensures_statementWith (ensures : EnsuresObtainable fuel) (head : Token) :
    Ensures (statementWith (fuel + 1) head) Node.Obtainable := by
  have value : Ensures (next >>= expressionWith fuel) Node.Obtainable := .after ensures.expression
  by_cases isKeyword : ∃ word, head.kind = .keyword word
  · obtain ⟨word, isKeyword⟩ := isKeyword
    by_cases isMain : word = .mainWord
    · subst isMain
      rw [statementWith_main isKeyword]
      refine .after fun _ => ensures_statementOf .main head ?_
      rw [← bind_assoc_eq]
      exact .bind value fun _ isValue => ensures_calledValue isValue
    · rw [statementWith_of_keyword isKeyword isMain]
      exact ensures_statementOf _ head value
  · by_cases isBrace : head.kind = .openBrace
    · rw [statementWith_brace isBrace]
      exact ensures_blockOf head (ensures.block head.position)
    · have noKeyword : head.kind.isKeyword = false := by
        cases kind : head.kind with
        | keyword word => exact absurd ⟨word, kind⟩ isKeyword
        | _ => rfl
      rw [statementWith_other noKeyword isBrace]
      exact .fail _

private theorem ensures_blockStatementsWith (ensures : EnsuresObtainable fuel)
    (opening : Position) :
    Ensures (blockStatementsWith (fuel + 1) opening) fun found => AllObtainable found.1 := by
  have more (token : Token) : Ensures (do
      let first ← (statementWith fuel token).mapError (.insideBlock opening)
      let found ← blockStatementsWith fuel opening
      return (first :: found.1, found.2)) fun found => AllObtainable found.1 :=
    .bind ((ensures.statement token).mapError _) fun _ isFirst =>
      .bind (ensures.block opening) fun _ areRest => .pure (.cons isFirst areRest)
  unfold blockStatementsWith
  refine .after fun found => ?_
  cases found with
  | none => exact .fail _
  | some token =>
      dsimp only
      split
      · exact .pure .nil
      · exact more token
      · exact more token
      · exact more token
      · exact .fail _

private theorem ensures_tailWith (ensures : EnsuresObtainable fuel)
    (expression : ∀ head, Ensures (expressionWith (fuel + 1) head) Node.Obtainable) {left : Node}
    (isLeft : left.Obtainable) : Ensures (tailWith (fuel + 1) left) Node.Obtainable := by
  rw [tailWith_succ]
  refine .after fun found => ?_
  cases found with
  | none => exact .pure isLeft
  | some sign =>
      dsimp only
      split
      · exact .after fun head => .bind (expression head) fun right isRight =>
          .build (.pair isLeft isRight)
      · exact ensures_binding sign isLeft ensures.expression

private theorem ensures_expressionWith (ensures : EnsuresObtainable fuel) (head : Token) :
    Ensures (expressionWith (fuel + 1) head) Node.Obtainable := by
  rw [expressionWith_succ]
  split
  · exact ensures_blockOf head (ensures.block head.position)
  · exact .bind (ensures_operand head) ensures.tail

private theorem ensuresObtainable (fuel : Nat) : EnsuresObtainable fuel := by
  induction fuel with
  | zero =>
      exact ⟨fun _ => .unexpectedEnd, fun _ => .fail _, fun _ => .unexpectedEnd,
        fun _ isLeft => .pure isLeft⟩
  | succ fuel inductionHypothesis =>
      have expression := ensures_expressionWith inductionHypothesis
      exact ⟨ensures_statementWith inductionHypothesis,
        ensures_blockStatementsWith inductionHypothesis, expression,
        fun _ => ensures_tailWith inductionHypothesis expression⟩

theorem ensures_statement (head : Token) : Ensures (statement head) Node.Obtainable :=
  .after fun fuel => (ensuresObtainable fuel).statement head

private theorem ensures_statements (count : Nat) : Ensures (statements count) AllObtainable := by
  induction count with
  | zero => exact .pure .nil
  | succ count inductionHypothesis =>
      refine .after fun found => ?_
      cases found with
      | none => exact .pure .nil
      | some token =>
          exact .bind (ensures_statement token) fun first isFirst =>
            .bind inductionHypothesis fun rest areRest => .pure (.cons isFirst areRest)

private theorem ensures_program : Ensures program Node.Obtainable :=
  .after fun count => .bind (ensures_statements count) fun _ areBody =>
    .after fun _ => .build areBody

theorem Call.ensures (call : Call) : Ensures call.run Node.Obtainable := by
  cases call with
  | program => exact ensures_program
  | statement head => exact ensures_statement head
  | expression head => exact .after fun fuel => (ensuresObtainable fuel).expression head
  | block opening =>
      exact .after fun fuel => ensures_blockOf opening ((ensuresObtainable fuel).block _)

theorem parse_obtainable {content : String} {tree : Node} (parsed : parse content = .ok tree) :
    tree.Obtainable := by
  cases read : Token.ofText? true content with
  | error error =>
      rw [parse_eq_of_stray read] at parsed
      cases parsed
  | ok tokens =>
      rw [parse_eq_of_tokens read] at parsed
      exact ensures_program.result (Prod.ext parsed rfl)

end SprigCompiler.Parse

namespace SprigCompiler

open Node Parse

/-- The constructors build the trees that the table of children allows and refuse any other call
with its first offence.  All trees that are read are built so, and what tells of types stands in a
program only below type declarations. -/
theorem Node.obtainable_iff_allowed_throughout :
    (∀ node : Node, node.Obtainable ↔ node.AllowedThroughout) ∧
    (∀ (node : Node) (error : ValidationError),
      node.checked = .error error ↔ node.Offends error) ∧
    (∀ (kind : NodeKind) (head : Node) (arguments : List Node) (location : Location)
      (error : ValidationError),
      applicationOfKind kind head arguments location = .error (.invalid error) ↔
        ∃ form : ApplicationForm, kind = form.kind ∧
          (application form head arguments location).Offends error) ∧
    (∀ (content : String) (tree : Node), parse content = .ok tree → tree.isValid = true) ∧
    (∀ (call : Call) (parser behind : Parser) (tree : Node),
      call.run parser = (.ok tree, behind) → tree.isValid = true) ∧
    ∀ (tree node : Node) (above : List Node), tree.kind = .program → tree.isValid = true →
      tree.StandsIn above node → node.kind.tellsOfTypes = true →
        ∃ declaration ∈ above, declaration.kind = .typeDeclaration := by
  have valid {tree : Node} (obtainable : tree.Obtainable) : tree.isValid = true :=
    (isValid_iff tree).mpr obtainable.allowed
  refine ⟨obtainable_iff, checked_eq_error_iff, applicationOfKind_eq_invalid_iff, ?_, ?_, ?_⟩
  · intro content tree parsed
    exact valid (parse_obtainable parsed)
  · intro call parser behind tree ran
    exact valid (call.ensures.result ran)
  · intro tree node above isProgram isValid stands tells
    exact stands.below_typeDeclaration isProgram ((isValid_iff tree).mp isValid) tells

/-- A union that is read stands below the declaration of its type. -/
theorem Node.obtainable_iff_allowed_throughout_union :
    let single : Node := .union [.identifier "b" ⟨1, 7, 7, 8⟩] ⟨1, 7, 7, 8⟩
    let sides : Node := .assignment (.identifier "a" ⟨1, 5, 5, 6⟩) single ⟨1, 5, 5, 8⟩
    let declares : Node := .statement .type sides ⟨1, 0, 0, 8⟩
    let tree : Node := .program [declares] ⟨1, 0, 0, 9⟩
    parse "type a=b|" = .ok tree ∧ tree.isValid = true ∧
      ∃ declaration ∈ [sides, declares, tree], declaration.kind = .typeDeclaration := by
  intro single sides declares tree
  have read : Token.ofText? true "type a=b|" = .ok [⟨.keyword .typeWord, "type", ⟨1, 0, 0, 4⟩⟩,
      ⟨.identifier, "a", ⟨1, 5, 5, 6⟩⟩, ⟨.operator .assign, "=", ⟨1, 6, 6, 7⟩⟩,
      ⟨.identifier, "b", ⟨1, 7, 7, 8⟩⟩, ⟨.operator .union, "|", ⟨1, 8, 8, 9⟩⟩] := by
    decide +kernel
  have parsed : parse "type a=b|" = .ok tree := (parse_eq_of_tokens read).trans rfl
  have isValid := obtainable_iff_allowed_throughout.2.2.2.1 _ _ parsed
  have stands : tree.StandsIn [sides, declares, tree] single :=
    .child (.child (.child .root (List.mem_singleton.mpr rfl)) (List.mem_singleton.mpr rfl))
      (List.mem_cons_of_mem _ (List.mem_singleton.mpr rfl))
  have below := obtainable_iff_allowed_throughout.2.2.2.2.2 _ _ _ rfl isValid stands rfl
  exact ⟨parsed, isValid, below⟩

end SprigCompiler
