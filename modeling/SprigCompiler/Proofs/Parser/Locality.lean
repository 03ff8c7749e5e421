import SprigCompiler.Proofs.Parser.Completeness
import SprigCompiler.Proofs.Parser.Parallel

/-!
Operands, expressions and blocks look one token ahead.

Each function of the parser runs in parallel with itself, and giving it a larger count than there
are tokens changes nothing.
-/

namespace SprigCompiler.Parse

open Movable (move)

variable {shift : Shift}

protected theorem Parallel.literal (token : Token) :
    Parallel shift (literal token) (literal (move shift token)) := by
  cases token with
  | mk kind text location =>
      cases kind
      case string => exact Parallel.pure (Node.string text location)
      case boolean => exact Parallel.pure (Node.boolean (text == "true") location)
      case number =>
        cases numeral : Decimal.read? text.toList with
        | none =>
            have refused : ∀ place, literal ⟨.number, text, place⟩ =
                unexpected ⟨.number, text, place⟩ := by
              intro place
              simp only [literal, numeral]
            exact (refused location).symm ▸ (refused (move shift location)).symm ▸
              Parallel.unexpected (⟨.number, text, location⟩ : Token)
        | some value =>
            have read : ∀ place, literal ⟨.number, text, place⟩ =
                pure (Node.number value place) := by
              intro place
              simp only [literal, numeral]
            exact (read location).symm ▸ (read (move shift location)).symm ▸
              Parallel.pure (Node.number value location)
      all_goals exact Parallel.unexpected _

protected theorem Parallel.atom (token : Token) :
    Parallel shift (atom token) (atom (move shift token)) := by
  by_cases isName : token.kind = .identifier
  · cases token with
    | mk kind text location =>
        cases isName
        exact Parallel.pure (Node.identifier text location)
  · rw [atom_eq_literal isName,
      atom_eq_literal (show (move shift token).kind ≠ .identifier from isName)]
    exact .literal token

private theorem isAtom_of_endsUnion {token : Token} (ends : endsUnion token = true) :
    token.kind.isAtom = false := by
  unfold endsUnion at ends
  cases kind : token.kind <;> rw [kind] at ends <;> first | rfl | cases ends

protected theorem Parallel.argumentRow (count : Nat) :
    Parallel shift (argumentRow count) (argumentRow count) := by
  induction count with
  | zero => exact Parallel.pure ([] : List Node)
  | succ count inductionHypothesis =>
      unfold argumentRow
      refine (Parallel.takeIf (fun _ => rfl) fun _ => isAtom_of_endsUnion).bind fun found => ?_
      cases found with
      | none => exact Parallel.pure ([] : List Node)
      | some token =>
          refine (Parallel.atom token).bind fun argument => ?_
          exact inductionHypothesis.bind fun rest => Parallel.pure (argument :: rest)

protected theorem Parallel.argumentsUpTo (closing : TokenKind) (count : Nat) :
    Parallel shift (argumentsUpTo closing count) (argumentsUpTo closing count) := by
  induction count with
  | zero => exact Parallel.unexpectedEnd
  | succ count inductionHypothesis =>
      unfold argumentsUpTo
      refine Parallel.next.bind fun token => ?_
      rw [Shift.kind_move]
      split
      · refine (Parallel.atom token).bind fun argument => ?_
        refine Parallel.next.bind fun separator => ?_
        rw [Shift.kind_move]
        split
        · exact Parallel.pure ([argument], separator.location)
        · split
          · exact inductionHypothesis.bind fun found =>
              Parallel.pure (argument :: found.1, found.2)
          · exact .unexpected separator
      · exact .unexpected token

private theorem saturates_argumentRow : Saturates argumentRow := by
  intro source entry past ahead count enough
  induction ahead generalizing past count with
  | nil =>
      have stops : Stops [] := fun _ isFirst => nomatch isFirst
      rw [argumentRow_stop stops, argumentRow_stop stops]
  | cons token ahead inductionHypothesis =>
      obtain ⟨count, rfl⟩ : ∃ less, count = less + 1 := ⟨count - 1, by
        simp only [List.length_cons] at enough
        omega⟩
      have fewer : ahead.length ≤ count := Nat.le_of_succ_le_succ enough
      unfold argumentRow
      refine bind_congr_of_ok fun found middle taken => ?_
      cases found with
      | none => rfl
      | some first =>
          obtain ⟨_, rest, split, rfl⟩ := takeIf_eq_some taken
          obtain ⟨rfl, rfl⟩ := List.cons.inj split
          refine bind_congr_of_ok fun argument middle read => ?_
          obtain ⟨_, rfl⟩ := atom_sound read
          exact bind_of_eq (inductionHypothesis _ count fewer) _

private theorem saturates_argumentsUpTo (closing : TokenKind) :
    Saturates (argumentsUpTo closing) := by
  intro source entry past ahead count enough
  induction length : ahead.length using Nat.strongRecOn generalizing past ahead count with
  | _ bound inductionHypothesis =>
      subst length
      cases ahead with
      | nil =>
          cases count with
          | zero => rfl
          | succ count => exact bind_of_error next_nil
      | cons token ahead =>
          obtain ⟨count, rfl⟩ : ∃ less, count = less + 1 := ⟨count - 1, by
            simp only [List.length_cons] at enough
            omega⟩
          simp only [List.length_cons] at enough inductionHypothesis ⊢
          unfold argumentsUpTo
          rw [bind_of_ok next_cons, bind_of_ok next_cons]
          split
          · refine bind_congr_of_ok fun argument middle read => ?_
            obtain ⟨_, rfl⟩ := atom_sound read
            refine bind_congr_of_ok fun separator middle taken => ?_
            obtain ⟨rest, rfl, rfl⟩ := next_eq_ok taken
            split
            · rfl
            · split
              · simp only [List.length_cons] at enough inductionHypothesis ⊢
                refine bind_of_eq ?_ _
                rw [inductionHypothesis rest.length (by omega) _ rest count (by omega) rfl,
                  inductionHypothesis rest.length (by omega) _ rest (rest.length + 1) (by omega) rfl]
              · rfl
          · rfl

protected theorem Parallel.delimitedArguments (closing : TokenKind)
    (noEnd : ∀ token, endsUnion token = true → (token.kind == closing) = false) :
    Parallel shift (delimitedArguments closing) (delimitedArguments closing) := by
  unfold delimitedArguments
  refine Parallel.next.bind fun _ => ?_
  refine (Parallel.takeIf (fun _ => rfl) noEnd).bind fun found => ?_
  cases found with
  | some token => exact Parallel.pure (([] : List Node), token.location)
  | none =>
      exact Parallel.ahead_bind (Parallel.argumentsUpTo closing) (saturates_argumentsUpTo closing)
        (saturates_argumentsUpTo closing)

/-- A name with its arguments, once it is known what it means. -/
def namedAs (form : ApplicationForm) (head : Token) : Parse Node := do
  match closingFor? form (← peekKind) with
  | some closing =>
      let (arguments, last) ← delimitedArguments closing
      build (.application form (.identifier head.text head.location) arguments
        (head.location.through last))
  | none =>
      let arguments ← argumentRow (← ahead)
      match arguments.getLast? with
      | none => return .identifier head.text head.location
      | some last =>
          build (.application form (.identifier head.text head.location) arguments
            (head.location.through last.location))

private theorem named_between (source : Source) (entry : Option Location) (past ahead : List Token)
    (head : Token) :
    named head (.between source entry past ahead) =
      namedAs (lastForm past) head (.between source entry past ahead) := by
  rw [← formBehind_eq_lastForm source entry past ahead]
  rfl

private theorem closingFor?_of_endsUnion (form : ApplicationForm) {token : Token}
    (ends : endsUnion token = true) : closingFor? form (some token.kind) = none := by
  unfold endsUnion at ends
  cases kind : token.kind <;> rw [kind] at ends <;> first | rfl | cases ends

private theorem not_closing_of_endsUnion {form : ApplicationForm} {opening : Option TokenKind}
    {closing : TokenKind} (opens : closingFor? form opening = some closing) {token : Token}
    (ends : endsUnion token = true) : (token.kind == closing) = false := by
  cases opening with
  | none => cases opens
  | some opening =>
      rw [beq_eq_false_iff_ne]
      rintro rfl
      have delimiters := closingFor?_eq_some_iff.mp opens
      unfold endsUnion at ends
      generalize token.kind = kind at delimiters ends
      cases delimiters <;> cases ends

theorem getLast?_move {nodes : List Node} :
    (move shift nodes).getLast? = move shift nodes.getLast? := List.getLast?_map

protected theorem Parallel.application (form : ApplicationForm) (head : Token)
    (arguments : List Node) (last : Location) :
    Parallel shift
      (build (.application form (.identifier head.text head.location) arguments
        (head.location.through last)))
      (build (.application form (.identifier head.text (move shift head.location))
        (move shift arguments) ((move shift head.location).through (move shift last)))) := by
  have moved : Parallel shift _ _ := Parallel.build
    (.application form (.identifier head.text head.location) arguments (head.location.through last))
  rw [Shift.through_move, ← Shift.relocatedAll_move]
  exact moved

protected theorem Parallel.namedAs (form : ApplicationForm) (head : Token) :
    Parallel shift (namedAs form head) (namedAs form (move shift head)) := by
  unfold namedAs
  refine Parallel.peekKind_bind (fun kind => ?_) fun token ends => ?_
  · cases opens : closingFor? form kind with
    | some closing =>
        refine (Parallel.delimitedArguments closing fun _ ends =>
          not_closing_of_endsUnion opens ends).bind fun found => ?_
        exact .application form head found.1 found.2
    | none =>
        refine Parallel.ahead_bind (fun count => (Parallel.argumentRow count).bind fun arguments => ?_)
          (saturates_argumentRow.bind _) (saturates_argumentRow.bind _)
        rw [getLast?_move]
        cases arguments.getLast? with
        | none => exact Parallel.pure (Node.identifier head.text head.location)
        | some last =>
            have moved : Parallel shift _ _ :=
              Parallel.application form head arguments last.location
            rw [← Shift.location_move_node] at moved
            exact moved
  · simp only [closingFor?_of_endsUnion form ends]
    rfl

protected theorem Parallel.named (head : Token) :
    Parallel shift (named head) (named (move shift head)) := by
  intro past otherPast same source entry ahead
  obtain ⟨outcome, taken, rest, split, ran, runs⟩ :=
    Parallel.namedAs (lastForm past) head past otherPast same source entry ahead
  refine ⟨outcome, taken, rest, split, (named_between _ _ _ _ _).trans ran, ?_⟩
  intro otherSource otherEntry others ends follows
  rw [named_between, ← show lastForm past = lastForm otherPast from same []]
  exact runs otherSource otherEntry others ends follows

protected theorem Parallel.operand (head : Token) :
    Parallel shift (operand head) (operand (move shift head)) := by
  by_cases isName : head.kind = .identifier
  · rw [operand_eq_named isName,
      operand_eq_named (show (move shift head).kind = .identifier from isName)]
    exact .named head
  · rw [operand_eq_literal isName,
      operand_eq_literal (show (move shift head).kind ≠ .identifier from isName)]
    exact .literal head

private theorem not_union_of_endsUnion {token : Token} (ends : endsUnion token = true) :
    token.isOperator .union = false := by
  unfold Token.isOperator
  rw [beq_eq_false_iff_ne]
  intro isBar
  unfold endsUnion at ends
  rw [isBar] at ends
  cases ends

protected theorem Parallel.unionMembers (count : Nat) :
    Parallel shift (unionMembers count) (unionMembers count) := by
  induction count with
  | zero => exact Parallel.pure ([] : List Node)
  | succ count inductionHypothesis =>
      unfold unionMembers
      refine (Parallel.takeIf (fun _ => rfl) fun _ ends => by rw [ends]; rfl).bind fun found => ?_
      cases found with
      | none => exact Parallel.pure ([] : List Node)
      | some token =>
          refine (Parallel.operand token).bind fun member => ?_
          refine (Parallel.takeIf (fun _ => rfl) fun _ => not_union_of_endsUnion).bind fun bar => ?_
          cases bar with
          | none => exact Parallel.pure [member]
          | some bar => exact inductionHypothesis.bind fun rest => Parallel.pure (member :: rest)

private theorem saturates_unionMembers : Saturates unionMembers := by
  intro source entry past ahead count enough
  induction length : ahead.length using Nat.strongRecOn generalizing past ahead count with
  | _ bound inductionHypothesis =>
      subst length
      cases ahead with
      | nil =>
          cases count with
          | zero => rfl
          | succ count => exact bind_of_ok takeIf_nil
      | cons token ahead =>
          obtain ⟨count, rfl⟩ : ∃ less, count = less + 1 := ⟨count - 1, by
            simp only [List.length_cons] at enough
            omega⟩
          simp only [List.length_cons] at enough inductionHypothesis ⊢
          unfold unionMembers
          refine bind_congr_of_ok fun found middle taken => ?_
          cases found with
          | none => rfl
          | some first =>
              obtain ⟨_, rest, split, rfl⟩ := takeIf_eq_some taken
              obtain ⟨rfl, rfl⟩ := List.cons.inj split
              refine bind_congr_of_ok fun member middle read => ?_
              obtain ⟨inside, rest, rfl, rfl⟩ := (Parallel.operand token).behind read
              refine bind_congr_of_ok fun bar middle stepped => ?_
              cases bar with
              | none => rfl
              | some bar =>
                  obtain ⟨_, rest, rfl, rfl⟩ := takeIf_eq_some stepped
                  simp only [List.length_append, List.length_cons] at enough inductionHypothesis ⊢
                  refine bind_of_eq ?_ _
                  rw [inductionHypothesis rest.length (by omega) _ rest count (by omega) rfl]
                  symm
                  exact inductionHypothesis rest.length (by omega) _ rest _ (by omega) rfl

protected theorem Parallel.union (first : Node) :
    Parallel shift (union first) (union (move shift first)) := by
  unfold union
  refine Parallel.ahead_bind (fun count => (Parallel.unionMembers count).bind fun members => ?_)
    (saturates_unionMembers.bind _) (saturates_unionMembers.bind _)
  have last : (move shift members).getLast?.getD (move shift first) =
      move shift (members.getLast?.getD first) := by
    rw [getLast?_move]
    cases members.getLast? <;> rfl
  simp only [last, Shift.location_move_node, Shift.through_move]
  rw [← Shift.move_cons, ← Shift.relocatedAll_move]
  exact Parallel.build (.union (first :: members) _)

protected theorem Parallel.takeOperator : Parallel shift takeOperator takeOperator := by
  unfold takeOperator
  have fails : ∀ token, endsUnion token = true → token.kind.operator?.isSome = false := by
    intro token ends
    unfold endsUnion at ends
    cases kind : token.kind <;> rw [kind] at ends <;> first | rfl | cases ends
  refine (Parallel.takeIf (fun _ => rfl) fails).bind fun found => ?_
  cases found with
  | none => exact Parallel.pure (none : Option Operator)
  | some token =>
      change Parallel shift (pure token.kind.operator?) (pure token.kind.operator?)
      cases token.kind.operator? with
      | none => exact Parallel.pure (none : Option Operator)
      | some sign => exact Parallel.pure (some sign)

protected theorem Parallel.binding (sign : Operator) (left : Node) {expression : Token → Parse Node}
    (expressions : ∀ head, Parallel shift (expression head) (expression (move shift head))) :
    Parallel shift (binding sign left expression) (binding sign (move shift left) expression) := by
  unfold binding
  split
  · exact .union left
  · refine Parallel.next.bind fun head => (expressions head).bind fun right => ?_
    rw [Shift.location_move_node, Shift.location_move_node, Shift.through_move]
    exact Parallel.build (.assignment left right _)

protected theorem Parallel.blockOf (opening : Token)
    {statements other : Parse (List Node × Location)}
    (parallel : Parallel shift statements other) :
    Parallel shift (blockOf opening statements) (blockOf (move shift opening) other) := by
  unfold blockOf
  refine parallel.bind fun found => ?_
  have moved : Parallel shift _ _ := Parallel.build
    (.block found.1 (opening.location.through found.2))
  rw [show move shift (Node.block found.1 (opening.location.through found.2)) =
    .block (Node.relocatedAll (move shift) found.1)
      (move shift (opening.location.through found.2)) from rfl, Shift.relocatedAll_move,
    ← Shift.through_move] at moved
  exact moved

protected theorem ParallelAt.statementOf (form : StatementForm) (head : Token)
    {value other : Parse Node} {past otherPast : List Token}
    (parallel : ParallelAt shift past otherPast value other) :
    ParallelAt shift past otherPast (statementOf form head value)
      (statementOf form (move shift head) other) := by
  unfold statementOf
  refine parallel.bind fun taken value => ?_
  rw [Shift.location_move_node, Shift.location_move, Shift.through_move]
  exact ParallelAt.build (.statement form value _)

protected theorem Parallel.statementOf (form : StatementForm) (head : Token)
    {value other : Parse Node} (parallel : Parallel shift value other) :
    Parallel shift (statementOf form head value) (statementOf form (move shift head) other) :=
  fun past otherPast same => (parallel past otherPast same).statementOf form head

private theorem insideBlock_move (opening : Position) (error : ParseError) :
    (move shift error).insideBlock (move shift opening) =
      move shift (error.insideBlock opening) := by
  cases error <;> rfl

structure ParallelWith (shift : Shift) (fuel : Nat) : Prop where
  declaration : ∀ head word, head.kind = .keyword word → word ≠ .mainWord →
    Parallel shift (statementWith fuel head) (statementWith fuel (move shift head))
  block : ∀ opening, Parallel shift (blockStatementsWith fuel opening)
    (blockStatementsWith fuel (move shift opening))
  expression : ∀ head, Parallel shift (expressionWith fuel head)
    (expressionWith fuel (move shift head))
  tail : ∀ left, Parallel shift (tailWith fuel left) (tailWith fuel (move shift left))

private theorem parallelWith_zero : ParallelWith shift 0 where
  declaration _ _ _ _ := Parallel.unexpectedEnd
  block opening := Parallel.fail (.incomplete opening)
  expression _ := Parallel.unexpectedEnd
  tail left := Parallel.pure left

variable {fuel : Nat}

private theorem expressionWith_parallel (parallel : ParallelWith shift fuel) (head : Token) :
    Parallel shift (expressionWith (fuel + 1) head)
      (expressionWith (fuel + 1) (move shift head)) := by
  rw [expressionWith_succ, expressionWith_succ, Shift.kind_move]
  split
  · exact .blockOf head (parallel.block head.position)
  · exact (Parallel.operand head).bind parallel.tail

private theorem tailWith_parallel (parallel : ParallelWith shift fuel)
    (rights : ∀ head, Parallel shift (expressionWith (fuel + 1) head)
      (expressionWith (fuel + 1) (move shift head))) (left : Node) :
    Parallel shift (tailWith (fuel + 1) left) (tailWith (fuel + 1) (move shift left)) := by
  rw [tailWith_succ, tailWith_succ]
  refine Parallel.takeOperator.bind fun found => ?_
  cases found with
  | none => exact Parallel.pure left
  | some sign =>
      rw [show move shift (some sign) = some sign from rfl]
      cases arithmetic : MathOperator.ofOperator? sign with
      | none =>
          simp only [arithmetic]
          exact .binding sign left parallel.expression
      | some operator =>
          simp only [arithmetic]
          refine Parallel.next.bind fun head => (rights head).bind fun right => ?_
          rw [Shift.location_move_node, Shift.location_move_node, Shift.through_move]
          exact Parallel.build (.math operator left right _)

private theorem declaration_parallel (parallel : ParallelWith shift fuel) {head : Token}
    {word : Keyword} (isKeyword : head.kind = .keyword word) (noMain : word ≠ .mainWord) :
    Parallel shift (statementWith (fuel + 1) head)
      (statementWith (fuel + 1) (move shift head)) := by
  rw [statementWith_of_keyword isKeyword noMain,
    statementWith_of_keyword (show (move shift head).kind = .keyword word from isKeyword) noMain]
  exact .statementOf _ head (Parallel.next.bind parallel.expression)

private theorem blockStatementsWith_parallel (parallel : ParallelWith shift fuel)
    (opening : Position) :
    Parallel shift (blockStatementsWith (fuel + 1) opening)
      (blockStatementsWith (fuel + 1) (move shift opening)) := by
  rw [blockStatementsWith, blockStatementsWith]
  refine Parallel.advance_bind (rfl : _ = fail (.incomplete opening)) rfl fun token => ?_
  have first : ∀ word, token.kind = .keyword word → word ≠ .mainWord →
      Parallel shift
        ((statementWith fuel token).mapError (.insideBlock opening) >>= fun first =>
          blockStatementsWith fuel opening >>= fun found => pure (first :: found.1, found.2))
        ((statementWith fuel (move shift token)).mapError (.insideBlock (move shift opening)) >>=
          fun first => blockStatementsWith fuel (move shift opening) >>= fun found =>
            pure (first :: found.1, found.2)) := by
    intro word isKeyword noMain
    refine ((parallel.declaration token word isKeyword noMain).mapError
      (insideBlock_move opening)).bind fun first => ?_
    exact (parallel.block opening).bind fun found => Parallel.pure (first :: found.1, found.2)
  have fails : Parallel shift (fail (.incomplete opening) : Parse (List Node × Location))
      (fail (.incomplete (move shift opening))) := Parallel.fail (.incomplete opening)
  simp only [Shift.kind_move]
  cases kind : token.kind with
  | closeBrace => exact Parallel.pure (([] : List Node), token.location)
  | keyword word =>
      cases word with
      | typeWord => exact first _ kind (by decide)
      | letWord => exact first _ kind (by decide)
      | returnWord => exact first _ kind (by decide)
      | _ => exact fails
  | _ => exact fails

theorem parallelWith (shift : Shift) (fuel : Nat) : ParallelWith shift fuel := by
  induction fuel with
  | zero => exact parallelWith_zero
  | succ fuel inductionHypothesis =>
      exact {
        declaration := fun _ _ => declaration_parallel inductionHypothesis
        block := blockStatementsWith_parallel inductionHypothesis
        expression := expressionWith_parallel inductionHypothesis
        tail := tailWith_parallel inductionHypothesis
          (expressionWith_parallel inductionHypothesis) }

end SprigCompiler.Parse
