import SprigCompiler.Proofs.Parser.Programs
import SprigCompiler.Proofs.Parser.Yields
import SprigCompiler.Proofs.Tree.Listing

/-!
Trees over the tokens that they were read from.

The grammar forgets locations and tells apart where a form may stand.  Here it is the other way
round: a row of trees stands over a row of tokens, every token belongs to it in one way, and every
location comes from tokens.
-/

namespace SprigCompiler

/-- Whether a token only separates or encloses what stands around it. -/
def TokenKind.isMark : TokenKind → Bool
  | closeBrace | openParen | closeParen | openAngle | closeAngle | comma | operator .union => true
  | _ => false

inductive Leaf : Token → Node → Prop where
  | identifier (text : String) (location : Location) :
      Leaf ⟨.identifier, text, location⟩ (.identifier text location)
  | string (text : String) (location : Location) :
      Leaf ⟨.string, text, location⟩ (.string text location)
  | number (text : String) (value : Binary64) (location : Location)
      (numeral : Decimal.read? text.toList = some value) :
      Leaf ⟨.number, text, location⟩ (.number value location)
  | boolean (text : String) (location : Location) :
      Leaf ⟨.boolean, text, location⟩ (.boolean (text == "true") location)

/-- Whether trees stand over tokens, both in order and without gaps. -/
inductive Built : List Token → List Node → Prop where
  | nothing : Built [] []
  | mark {token : Token} (isMark : token.kind.isMark = true) : Built [token] []
  | leaf {token : Token} {node : Node} (leaf : Leaf token node) : Built [token] [node]
  | append {front behind : List Token} {nodes others : List Node} (first : Built front nodes)
      (second : Built behind others) : Built (front ++ behind) (nodes ++ others)
  | application {tokens : List Token} {form : ApplicationForm} {head : Node}
      {arguments : List Node} {first last : Token} (children : Built tokens (head :: arguments))
      (isFirst : tokens.head? = some first) (isLast : tokens.getLast? = some last) :
      Built tokens [.application form head arguments (first.location.through last.location)]
  | called {tokens : List Token} {name : String} {location : Location}
      (children : Built tokens [.identifier name location]) :
      Built tokens [.application .call (.identifier name location) [] location]
  | union {tokens : List Token} {members : List Node} {first last : Node}
      (children : Built tokens members) (isFirst : members.head? = some first)
      (isLast : members.getLast? = some last) :
      Built tokens [.union members (first.location.through last.location)]
  -- Without operators on the left, those of a chain come in the order of its nodes.
  | math {before after : List Token} {token : Token} {sign : Operator} {operator : MathOperator}
      {left right : Node} (plain : ∀ token ∈ before, token.kind.operator? = none)
      (isOperator : token.kind = .operator sign)
      (arithmetic : MathOperator.ofOperator? sign = some operator) (lefts : Built before [left])
      (rights : Built after [right]) :
      Built (before ++ token :: after)
        [.math operator left right (left.location.through right.location)]
  | assignment {before after : List Token} {token : Token} {left right : Node}
      (isEquals : token.kind = .operator .assign) (lefts : Built before [left])
      (rights : Built after [right]) :
      Built (before ++ token :: after)
        [.assignment left right (left.location.through right.location)]
  | block {opening closing : Token} {inside : List Token} {body : List Node}
      (opens : opening.kind = .openBrace) (closes : closing.kind = .closeBrace)
      (children : Built inside body) :
      Built (opening :: (inside ++ [closing]))
        [.block body (opening.location.through closing.location)]
  | statement {head : Token} {tokens : List Token} {word : Keyword} {value : Node}
      (isKeyword : head.kind = .keyword word) (children : Built tokens [value]) :
      Built (head :: tokens)
        [.statement (Parse.formOf word) value (head.location.through value.location)]

structure Flat (tokens : List Token) (nodes : List Node) : Prop where
  built : Built tokens nodes
  plain : ∀ token ∈ tokens, token.kind.operator? = none

variable {token : Token} {tokens front behind : List Token} {node : Node} {nodes others : List Node}

theorem Leaf.location_eq (leaf : Leaf token node) : node.location = token.location := by
  cases leaf <;> rfl

theorem Leaf.listed_eq (leaf : Leaf token node) : Node.listed [node] = [node] := by
  cases leaf <;> rfl

private theorem Leaf.operator?_eq_none (leaf : Leaf token node) : token.kind.operator? = none := by
  cases leaf <;> rfl

private theorem getLast?_of_leaves {last : Node} (leaves : List.Forall₂ Leaf tokens nodes)
    (isLast : nodes.getLast? = some last) :
    ∃ token, tokens.getLast? = some token ∧ Leaf token last := by
  induction leaves with
  | nil => cases isLast
  | cons first others inductionHypothesis =>
      cases others with
      | nil =>
          cases isLast
          exact ⟨_, rfl, first⟩
      | cons second others =>
          rw [List.getLast?_cons_cons] at isLast ⊢
          exact inductionHypothesis isLast

namespace Built

theorem mark_cons (isMark : token.kind.isMark = true) (built : Built tokens nodes) :
    Built (token :: tokens) nodes := (mark isMark).append built

private theorem leaf_cons (isLeaf : Leaf token node) (built : Built tokens nodes) :
    Built (token :: tokens) (node :: nodes) := (leaf isLeaf).append built

end Built

namespace Flat

theorem nothing : Flat [] [] := ⟨.nothing, nofun⟩

theorem leaf_cons (isLeaf : Leaf token node) (flat : Flat tokens nodes) :
    Flat (token :: tokens) (node :: nodes) where
  built := flat.built.leaf_cons isLeaf
  plain := List.forall_mem_cons.mpr ⟨isLeaf.operator?_eq_none, flat.plain⟩

theorem mark_cons (isMark : token.kind.isMark = true) (isPlain : token.kind.operator? = none)
    (flat : Flat tokens nodes) : Flat (token :: tokens) nodes where
  built := flat.built.mark_cons isMark
  plain := List.forall_mem_cons.mpr ⟨isPlain, flat.plain⟩

private theorem append (first : Flat front nodes) (second : Flat behind others) :
    Flat (front ++ behind) (nodes ++ others) where
  built := first.built.append second.built
  plain := List.forall_mem_append.mpr ⟨first.plain, second.plain⟩

theorem of_leaves (leaves : List.Forall₂ Leaf tokens nodes) : Flat tokens nodes := by
  induction leaves with
  | nil => exact nothing
  | cons first _ inductionHypothesis => exact inductionHypothesis.leaf_cons first

end Flat

namespace Parse

variable {fuel : Nat}

private theorem yields_literal (token : Token) :
    Yields (literal token) fun taken node => taken = [] ∧ Leaf token node := by
  obtain ⟨kind, text, location⟩ := token
  cases kind with
  | string => exact .pure ⟨rfl, .string text location⟩
  | boolean => exact .pure ⟨rfl, .boolean text location⟩
  | number =>
      unfold literal
      cases numeral : Decimal.read? text.toList with
      | none => exact .unexpected _
      | some value => exact .pure ⟨rfl, .number text value location numeral⟩
  | _ => exact .unexpected _

theorem yields_atom (token : Token) :
    Yields (atom token) fun taken node => taken = [] ∧ Leaf token node := by
  by_cases isName : token.kind = .identifier
  · obtain ⟨kind, text, location⟩ := token
    cases isName
    exact .pure ⟨rfl, .identifier text location⟩
  · rw [atom_eq_literal isName]
    exact yields_literal token

theorem yields_argumentRow (count : Nat) :
    Yields (argumentRow count) (List.Forall₂ Leaf) := by
  induction count with
  | zero => exact .pure .nil
  | succ count inductionHypothesis =>
      unfold argumentRow
      refine .takeIf_bind (.pure .nil) fun token _ => ?_
      refine .check_bind (yields_atom token) fun argument leaf => ?_
      refine .bind inductionHypothesis fun taken rest leaves => ?_
      rw [← List.append_nil taken] at leaves
      exact .pure (.cons leaf leaves)

/-- Whether tokens end with a closing one at a location, and nodes are related to those before
it. -/
def Closed (closing : TokenKind) (relation : List Token → List Node → Prop) (taken : List Token)
    (found : List Node × Location) : Prop :=
  ∃ inside closer, taken = inside ++ [closer] ∧ closer.kind = closing ∧
    found.2 = closer.location ∧ relation inside found.1

theorem yields_argumentsUpTo (closing : TokenKind) (count : Nat) :
    Yields (argumentsUpTo closing count) (Closed closing Flat) := by
  induction count with
  | zero => exact .unexpectedEnd
  | succ count inductionHypothesis =>
      unfold argumentsUpTo
      refine .next_bind fun token => ?_
      split
      · refine .check_bind (yields_atom token) fun argument leaf => ?_
        refine .next_bind fun separator => ?_
        split
        · rename_i closes
          exact .pure ⟨[token], separator, rfl, closes, rfl, .leaf_cons leaf .nothing⟩
        · split
          · rename_i isComma
            refine .bind inductionHypothesis fun taken found closed => ?_
            obtain ⟨inside, closer, rfl, closes, isLast, flat⟩ := closed
            have further := flat.mark_cons (by rw [isComma]; rfl) (by rw [isComma]; rfl)
            exact .pure ⟨token :: separator :: inside, closer, by simp, closes, isLast,
              .leaf_cons leaf further⟩
          · exact .unexpected _
      · exact .unexpected _

theorem yields_delimitedArguments (closing : TokenKind) :
    Yields (delimitedArguments closing) fun taken found =>
      ∃ opener rest, taken = opener :: rest ∧ Closed closing Flat rest found := by
  unfold delimitedArguments
  refine .next_bind fun opener => .takeIf_bind ?_ fun closer closes => ?_
  · refine .still_bind (fun _ => rfl) fun count => ?_
    refine (yields_argumentsUpTo closing count).mono fun taken found closed => ?_
    exact ⟨opener, taken, rfl, closed⟩
  · exact .pure ⟨opener, [closer], rfl, [], closer, rfl, eq_of_beq closes, rfl, .nothing⟩

theorem leaf_of_isName {head : Token} (isName : head.kind = .identifier) :
    Leaf head (.identifier head.text head.location) := by
  obtain ⟨kind, text, location⟩ := head
  cases isName
  exact .identifier text location

private theorem isMark_of_delimiters {form : ApplicationForm} {opening closing : TokenKind}
    (delimiters : Grammar.Delimiters form opening closing) :
    (opening.isMark = true ∧ opening.operator? = none) ∧
      closing.isMark = true ∧ closing.operator? = none := by
  cases delimiters <;> exact ⟨⟨rfl, rfl⟩, rfl, rfl⟩

private theorem yields_named {head : Token} (isName : head.kind = .identifier) :
    Yields (named head) fun taken node => Flat (head :: taken) [node] := by
  have name := leaf_of_isName isName
  unfold named
  refine .still_bind (fun _ => rfl) fun cursor => ?_
  dsimp only
  generalize formBehind cursor = form
  refine .peekKind_bind fun peeked => ?_
  cases opens : closingFor? form peeked with
  | some closing =>
      refine .bind (yields_delimitedArguments closing) fun taken found delimited => ?_
      obtain ⟨arguments, last⟩ := found
      obtain ⟨opener, _, rfl, inside, closer, rfl, closes, rfl, flat⟩ := delimited
      refine .build fun isPeeked => ?_
      rw [isPeeked opener rfl, closingFor?_eq_some_iff] at opens
      obtain ⟨⟨opens, opensPlain⟩, ends, endsPlain⟩ := isMark_of_delimiters opens
      rw [← closes] at ends endsPlain
      have whole := (flat.append (Flat.nothing.mark_cons ends endsPlain)).mark_cons opens opensPlain
      rw [List.append_nil] at whole
      have children := whole.leaf_cons name
      have isLast : (head :: opener :: inside ++ [closer]).getLast? = some closer :=
        List.getLast?_concat
      rw [List.append_nil]
      exact ⟨.application children.built rfl isLast, children.plain⟩
  | none =>
      refine .still_bind (fun _ => rfl) fun count => ?_
      refine .bind (yields_argumentRow count) fun taken arguments leaves => ?_
      cases isLast : arguments.getLast? with
      | none =>
          rw [List.getLast?_eq_none_iff] at isLast
          subst isLast
          cases leaves
          exact .pure fun _ => .leaf_cons name .nothing
      | some last =>
          have children := (Flat.of_leaves leaves).leaf_cons name
          obtain ⟨token, isToken, leaf⟩ := getLast?_of_leaves leaves isLast
          refine .build fun _ => ?_
          rw [leaf.location_eq, List.append_nil]
          refine ⟨.application children.built rfl ?_, children.plain⟩
          rw [List.getLast?_cons, isToken]
          rfl

theorem yields_operand (head : Token) :
    Yields (operand head) fun taken node => Flat (head :: taken) [node] := by
  by_cases isName : head.kind = .identifier
  · rw [operand_eq_named isName]
    exact yields_named isName
  · rw [operand_eq_literal isName]
    refine (yields_literal head).mono fun taken node read => ?_
    obtain ⟨rfl, leaf⟩ := read
    exact .leaf_cons leaf .nothing

theorem yields_unionMembers (count : Nat) : Yields (unionMembers count) Built := by
  induction count with
  | zero => exact .pure .nothing
  | succ count inductionHypothesis =>
      unfold unionMembers
      refine .takeIf_bind (.pure .nothing) fun token _ => ?_
      refine .bind (yields_operand token) fun taken member flat => ?_
      refine .takeIf_bind ?_ fun bar isBar => ?_
      · rw [← List.append_nil taken] at flat
        exact .pure flat.built
      · have isMark : bar.kind.isMark = true := by
          rw [kind_of_isOperator isBar]
          rfl
        refine .bind inductionHypothesis fun more rest built => ?_
        have whole := flat.built.append (built.mark_cons isMark)
        refine .pure ?_
        simpa using whole

private theorem yields_union {before : List Token} {bar : Token} {first : Node}
    (isMark : bar.kind.isMark = true) (built : Built before [first]) :
    Yields (union first) fun taken node => Built (before ++ bar :: taken) [node] := by
  unfold union
  refine .still_bind (fun _ => rfl) fun count => ?_
  refine .bind (yields_unionMembers count) fun taken members rest => ?_
  have children := built.append (rest.mark_cons isMark)
  refine .build ?_
  rw [List.append_nil]
  exact .union children rfl List.getLast?_cons

theorem yields_takeOperator : Yields takeOperator fun taken sign =>
    (sign = none ∧ taken = []) ∨ ∃ token operator,
      sign = some operator ∧ taken = [token] ∧ token.kind = .operator operator := by
  unfold takeOperator
  refine .takeIf_bind (.pure (.inl ⟨rfl, rfl⟩)) fun token isOperator => ?_
  obtain ⟨operator, kind⟩ := operator_of_isSome isOperator
  refine .pure (.inr ⟨token, operator, ?_, rfl, kind⟩)
  rw [Option.bind_some, kind]
  rfl

private theorem yields_blockOf (opening : Token) {statements : Parse (List Node × Location)}
    (body : Yields statements (Closed .closeBrace Built)) :
    Yields (blockOf opening statements) fun taken node =>
      Built ({ opening with kind := .openBrace } :: taken) [node] := by
  unfold blockOf
  refine .bind body fun taken found closed => ?_
  obtain ⟨nodes, last⟩ := found
  obtain ⟨inside, closer, rfl, closes, rfl, built⟩ := closed
  refine .build ?_
  rw [List.append_nil]
  exact .block rfl closes built

structure Builds (fuel : Nat) : Prop where
  statement : ∀ head,
    Yields (statementWith fuel head) fun taken node => Built (head :: taken) [node]
  block : ∀ opening, Yields (blockStatementsWith fuel opening) (Closed .closeBrace Built)
  expression : ∀ head,
    Yields (expressionWith fuel head) fun taken node => Built (head :: taken) [node]
  tail : ∀ before left, Flat before [left] →
    Yields (tailWith fuel left) fun taken node => Built (before ++ taken) [node]

private theorem builds_zero : Builds 0 where
  statement _ := .unexpectedEnd
  block opening := .fail (.incomplete opening)
  expression _ := .unexpectedEnd
  tail before left flat := .pure (by rw [List.append_nil]; exact flat.built)

private theorem expressionWith_builds (builds : Builds fuel) (head : Token) :
    Yields (expressionWith (fuel + 1) head) fun taken node => Built (head :: taken) [node] := by
  rw [expressionWith_succ]
  split
  · rename_i isBrace
    have block := yields_blockOf head (builds.block head.position)
    rw [← isBrace] at block
    exact block
  · exact .bind (yields_operand head) fun taken left flat => builds.tail (head :: taken) left flat

private theorem binding_builds (builds : Builds fuel) {before : List Token} {token : Token}
    {sign : Operator} {left : Node} (isOperator : token.kind = .operator sign)
    (noArithmetic : MathOperator.ofOperator? sign = none) (built : Built before [left]) :
    Yields (binding sign left (expressionWith fuel)) fun taken node =>
      Built (before ++ token :: taken) [node] := by
  unfold binding
  split
  · rename_i isUnion
    subst isUnion
    exact yields_union (by rw [isOperator]; rfl) built
  · have isAssign : sign = .assign := by
      cases sign <;> first | rfl | contradiction
    subst isAssign
    refine .next_bind fun head => ?_
    refine .bind (builds.expression head) fun taken right rights => ?_
    refine .build ?_
    rw [List.append_nil]
    exact .assignment isOperator built rights

private theorem tailWith_builds (builds : Builds fuel) {before : List Token} {left : Node}
    (flat : Flat before [left]) :
    Yields (tailWith (fuel + 1) left) fun taken node => Built (before ++ taken) [node] := by
  rw [tailWith_succ]
  refine .bind yields_takeOperator fun taken found isOperator => ?_
  obtain ⟨rfl, rfl⟩ | ⟨token, sign, rfl, rfl, isOperator⟩ := isOperator
  · refine .pure ?_
    rw [List.append_nil, List.append_nil]
    exact flat.built
  · cases arithmetic : MathOperator.ofOperator? sign with
    | none =>
        simp only [arithmetic]
        exact binding_builds builds isOperator arithmetic flat.built
    | some operator =>
        simp only [arithmetic]
        refine .next_bind fun head => ?_
        refine .bind (expressionWith_builds builds head) fun taken right rights => ?_
        refine .build ?_
        rw [List.append_nil]
        exact .math flat.plain isOperator arithmetic flat.built rights

private theorem yields_enterMain (head : Token) :
    Yields (enterMain head) fun taken _ => taken = [] ∧ True := by
  constructor
  intro source entry past ahead result behind ran
  cases entry with
  | none =>
      rw [enterMain_none] at ran
      cases ran
      exact ⟨_, [], ahead, rfl, rfl, rfl, trivial⟩
  | some location =>
      rw [enterMain_some] at ran
      cases ran

theorem yields_calledValue {tokens : List Token} {value : Node} (built : Built tokens [value]) :
    Yields (calledValue value) fun taken node => Built (tokens ++ taken) [node] := by
  have built : Built (tokens ++ []) [value] := by
    rw [List.append_nil]
    exact built
  unfold calledValue
  split
  · exact .build built.called
  · exact .pure built

private theorem yields_statementOf {head : Token} {word : Keyword} {value : Parse Node}
    (isKeyword : head.kind = .keyword word)
    (yields : Yields value fun taken node => Built taken [node]) :
    Yields (statementOf (formOf word) head value) fun taken node =>
      Built (head :: taken) [node] := by
  unfold statementOf
  refine .bind yields fun taken node built => ?_
  refine .build ?_
  rw [List.append_nil]
  exact .statement isKeyword built

private theorem statementWith_builds (builds : Builds fuel) (head : Token) :
    Yields (statementWith (fuel + 1) head) fun taken node => Built (head :: taken) [node] := by
  cases kind : head.kind with
  | keyword word =>
      by_cases isMain : word = .mainWord
      · subst isMain
        rw [statementWith_main kind]
        refine .check_bind (yields_enterMain head) fun _ _ => ?_
        refine yields_statementOf kind (.next_bind fun start => ?_)
        exact .bind (builds.expression start) fun taken value built => yields_calledValue built
      · rw [statementWith_of_keyword kind isMain]
        exact yields_statementOf kind (.next_bind builds.expression)
  | openBrace =>
      have block := yields_blockOf head (builds.block head.position)
      rw [statementWith_brace kind]
      rw [← kind] at block
      exact block
  | _ =>
      rw [statementWith_other (by rw [kind]; rfl) (by rw [kind]; exact nofun)]
      exact .unexpected head

private theorem blockStatementsWith_builds (builds : Builds fuel) (opening : Position) :
    Yields (blockStatementsWith (fuel + 1) opening) (Closed .closeBrace Built) := by
  have goesOn : ∀ token, Yields ((statementWith fuel token).mapError (.insideBlock opening) >>=
      fun first => blockStatementsWith fuel opening >>= fun found =>
        pure (first :: found.1, found.2)) fun more => Closed .closeBrace Built (token :: more) := by
    intro token
    refine .bind ((builds.statement token).mapError _) fun taken first built => ?_
    refine .bind (builds.block opening) fun more found closed => ?_
    obtain ⟨nodes, last⟩ := found
    obtain ⟨inside, closer, rfl, closes, isLast, others⟩ := closed
    exact .pure ⟨token :: taken ++ inside, closer, by simp, closes, isLast, built.append others⟩
  unfold blockStatementsWith
  refine .advance_bind (.fail _) fun token => ?_
  dsimp only
  split
  · rename_i closes
    exact .pure ⟨[], token, rfl, closes, rfl, .nothing⟩
  · exact goesOn token
  · exact goesOn token
  · exact goesOn token
  · exact .fail _

theorem builds (fuel : Nat) : Builds fuel := by
  induction fuel with
  | zero => exact builds_zero
  | succ fuel inductionHypothesis =>
      exact {
        statement := statementWith_builds inductionHypothesis
        block := blockStatementsWith_builds inductionHypothesis
        expression := expressionWith_builds inductionHypothesis
        tail := fun _ _ => tailWith_builds inductionHypothesis }

theorem yields_statement (head : Token) :
    Yields (statement head) fun taken node => Built (head :: taken) [node] :=
  .still_bind (fun _ => rfl) fun fuel => (builds fuel).statement head

theorem yields_expression (head : Token) :
    Yields (expression head) fun taken node => Built (head :: taken) [node] :=
  .still_bind (fun _ => rfl) fun fuel => (builds fuel).expression head

theorem yields_block (opening : Token) :
    Yields (block opening) fun taken node =>
      Built ({ opening with kind := .openBrace } :: taken) [node] :=
  .still_bind (fun _ => rfl) fun fuel => yields_blockOf opening ((builds fuel).block _)

theorem yields_statements (count : Nat) : Yields (statements count) Built := by
  induction count with
  | zero => exact .pure .nothing
  | succ count inductionHypothesis =>
      unfold statements
      refine .advance_bind (.pure .nothing) fun token => ?_
      refine .bind (yields_statement token) fun taken first built => ?_
      refine .bind inductionHypothesis fun more rest others => ?_
      refine .pure ?_
      rw [List.append_nil]
      exact built.append others

end Parse

end SprigCompiler
