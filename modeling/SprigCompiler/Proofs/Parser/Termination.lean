import SprigCompiler.Proofs.Parser.Loops

/-!
Every call of the parser ends.

A loop takes a token in every round, or stops.  What it takes to look ahead and puts back again is
less than it takes for good.  So the number of tokens ahead bounds the rounds, and within enough of
them the loops do what the counted steps of the parser do.
-/

namespace SprigCompiler.Parse.Loop

variable {Result First Second : Type} {source : Source} {entry : Option Location}
  {past ahead : List Token} {head : Token} {fuel count : Nat} {parser behind : Parser}

def Ends (loop : Loop Result) (parser : Parser) (outcome : Except ParseError Result × Parser) :
    Prop :=
  loop.run.run parser = some outcome

theorem ends_once (step : Parse Result) (parser : Parser) :
    Ends (once step) parser (step parser) := rfl

theorem ends_pure (result : Result) (parser : Parser) :
    Ends (pure result) parser (.ok result, parser) := rfl

/-- What follows a loop that ends has to end only behind a result of it. -/
protected theorem Ends.bind {loop : Loop First} {step : Parse First} {next : First → Loop Second}
    {rest : First → Parse Second} (first : Ends loop parser (step parser))
    (second : ∀ result behind, step parser = (.ok result, behind) →
      Ends (next result) behind (rest result behind)) :
    Ends (loop >>= next) parser ((step >>= rest) parser) := by
  have ran : (loop >>= next).run.run parser =
      (loop.run.run parser).bind fun found => (ExceptT.bindCont next found.1).run found.2 := rfl
  unfold Ends at first ⊢
  rw [ran, first]
  cases outcome : step parser with
  | mk result behind =>
      cases result with
      | ok result =>
          rw [bind_of_ok outcome]
          exact second result behind outcome
      | error error =>
          rw [bind_of_error outcome]
          rfl

theorem Ends.once_bind {step : Parse First} {next : First → Loop Second} {result : First}
    {outcome : Except ParseError Second × Parser} (ran : step parser = (.ok result, behind))
    (ends : Ends (next result) behind outcome) : Ends (once step >>= next) parser outcome := by
  have goesOn : (once step >>= next).run.run parser =
      (ExceptT.bindCont next (step parser).1).run (step parser).2 := rfl
  unfold Ends at ends ⊢
  rw [goesOn, ran]
  exact ends

private theorem ends_of_error {step : Parse First} {next : First → Loop Second} {error : ParseError}
    (failed : step parser = (.error error, behind)) :
    Ends (once step >>= next) parser (.error error, behind) := by
  have stops : (once step >>= next).run.run parser =
      (ExceptT.bindCont next (step parser).1).run (step parser).2 := rfl
  unfold Ends
  rw [stops, failed]
  rfl

private theorem argumentRow_ends (enough : ahead.length ≤ fuel) (rounds : ahead.length < count) :
    Ends (Loops.within count).argumentRow (.between source entry past ahead)
      (Parse.argumentRow fuel (.between source entry past ahead)) := by
  induction count generalizing fuel past ahead with
  | zero => exact absurd rounds (Nat.not_lt_zero _)
  | succ count inductionHypothesis =>
      change Ends (Round.argumentRow (.within count)) _ _
      unfold Round.argumentRow
      cases ahead with
      | nil =>
          have stops : Stops [] := nofun
          rw [argumentRow_stop stops]
          exact .once_bind peekKind_between (ends_pure [] _)
      | cons token ahead =>
          cases fuel with
          | zero => exact absurd enough (Nat.not_succ_le_zero _)
          | succ fuel =>
              rw [Parse.argumentRow]
              refine .once_bind peekKind_between ?_
              simp only [List.head?_cons, Option.map_some]
              split
              · rename_i isAtom
                rw [bind_of_ok (takeIf_of_true isAtom)]
                refine .once_bind next_cons ?_
                refine .bind (ends_once (atom token) _) fun argument behind ran => ?_
                obtain ⟨taken, rest, rfl, rfl⟩ := (Parallel.atom token).behind ran
                rw [List.length_cons, List.length_append] at enough rounds
                exact .bind (inductionHypothesis (by omega) (by omega)) fun _ _ _ =>
                  ends_pure _ _
              · rename_i noAtom
                have stays := @takeIf_of_false source entry past ahead token (·.kind.isAtom)
                  (Bool.eq_false_iff.mpr noAtom)
                rw [bind_of_ok stays]
                exact ends_pure [] _

private theorem argumentsUpTo_ends (closing : TokenKind) (enough : ahead.length ≤ fuel)
    (rounds : ahead.length < count) :
    Ends ((Loops.within count).argumentsUpTo closing) (.between source entry past ahead)
      (Parse.argumentsUpTo closing fuel (.between source entry past ahead)) := by
  induction count generalizing fuel past ahead with
  | zero => exact absurd rounds (Nat.not_lt_zero _)
  | succ count inductionHypothesis =>
      change Ends (Round.argumentsUpTo (.within count) closing) _ _
      unfold Round.argumentsUpTo
      cases fuel with
      | zero =>
          obtain rfl : ahead = [] := List.length_eq_zero_iff.mp (Nat.le_zero.mp enough)
          exact ends_of_error next_nil
      | succ fuel =>
          rw [Parse.argumentsUpTo]
          refine .bind (ends_once next _) fun token behind ran => ?_
          obtain ⟨rest, rfl, rfl⟩ := next_eq_ok ran
          split
          · refine .bind (ends_once (atom token) _) fun argument behind ran => ?_
            obtain ⟨taken, rest, rfl, rfl⟩ := (Parallel.atom token).behind ran
            refine .bind (ends_once next _) fun separator behind ran => ?_
            obtain ⟨rest, rfl, rfl⟩ := next_eq_ok ran
            rw [List.length_cons, List.length_append, List.length_cons] at enough rounds
            split
            · exact ends_pure _ _
            · split
              · exact .bind (inductionHypothesis (by omega) (by omega)) fun _ _ _ =>
                  ends_pure _ _
              · exact ends_once _ _
          · exact ends_once _ _

private theorem delimitedArguments_ends (closing : TokenKind) (rounds : ahead.length ≤ count) :
    Ends (Round.delimitedArguments (.within count) closing) (.between source entry past ahead)
      (Parse.delimitedArguments closing (.between source entry past ahead)) := by
  unfold Round.delimitedArguments Parse.delimitedArguments
  refine .bind (ends_once next _) fun opening behind ran => ?_
  obtain ⟨ahead, rfl, rfl⟩ := next_eq_ok ran
  have listed := @argumentsUpTo_ends source entry (opening :: past) ahead _ count closing
    (Nat.le_refl _) rounds
  refine .once_bind peekKind_between ?_
  cases ahead with
  | nil =>
      rw [bind_of_ok takeIf_nil]
      dsimp only
      rw [bind_of_ok ahead_between]
      exact listed
  | cons token ahead =>
      simp only [List.head?_cons, Option.map_some, Option.some.injEq]
      by_cases closes : token.kind = closing
      · have takes := @takeIf_of_true source entry (opening :: past) ahead token
          (·.kind == closing) (beq_iff_eq.mpr closes)
        rw [if_pos closes, bind_of_ok takes]
        exact .once_bind next_cons (ends_pure _ _)
      · have stays := @takeIf_of_false source entry (opening :: past) ahead token
          (·.kind == closing) (beq_false_of_ne closes)
        rw [if_neg closes, bind_of_ok stays]
        dsimp only
        rw [bind_of_ok ahead_between]
        exact listed

private theorem named_ends (head : Token) (rounds : ahead.length < count) :
    Ends (Round.named (.within count) head) (.between source entry past ahead)
      (Parse.named head (.between source entry past ahead)) := by
  unfold Round.named Parse.named
  refine .bind (ends_once cursor _) fun place behind ran => ?_
  cases ran
  refine .bind (ends_once peekKind _) fun opening behind ran => ?_
  rw [peekKind_between] at ran
  cases ran
  cases closingFor? (formBehind (Parser.between source entry past ahead).cursor)
      (ahead.head?.map Token.kind) with
  | some closing =>
      exact .bind (delimitedArguments_ends closing (Nat.le_of_lt rounds)) fun _ _ _ =>
        ends_once _ _
  | none =>
      dsimp only
      rw [bind_of_ok ahead_between]
      refine .bind (argumentRow_ends (Nat.le_refl _) rounds) fun arguments behind _ => ?_
      cases arguments.getLast? with
      | none => exact ends_pure _ _
      | some last => exact ends_once _ _

private theorem operand_ends (head : Token) (rounds : ahead.length < count) :
    Ends (Round.operand (.within count) head) (.between source entry past ahead)
      (Parse.operand head (.between source entry past ahead)) := by
  unfold Round.operand Parse.operand
  cases head.kind with
  | identifier => exact named_ends head rounds
  | _ => exact ends_once _ _

/-- Going back to a mark undoes what was taken behind it. -/
theorem resetTo_mark (token : Token) :
    resetTo (Parser.between source entry past (token :: ahead)).cursor.mark
        (.between source entry (token :: past) ahead) =
      (.ok (), .between source entry past (token :: ahead)) := by
  simp [resetTo, Cursor.reset, Cursor.mark, Parser.between]

private theorem unionMembers_ends (enough : ahead.length ≤ fuel) (rounds : ahead.length < count) :
    Ends (Loops.within count).unionMembers (.between source entry past ahead)
      (Parse.unionMembers fuel (.between source entry past ahead)) := by
  induction count generalizing fuel past ahead with
  | zero => exact absurd rounds (Nat.not_lt_zero _)
  | succ count inductionHypothesis =>
      change Ends (Round.unionMembers (.within count)) _ _
      unfold Round.unionMembers
      cases ahead with
      | nil =>
          have stops : Parse.unionMembers fuel (.between source entry past []) =
              (.ok [], .between source entry past []) := by
            cases fuel with
            | zero => rfl
            | succ fuel => exact bind_of_ok takeIf_nil
          rw [stops]
          exact .once_bind advance_nil (ends_pure [] _)
      | cons token ahead =>
          cases fuel with
          | zero => exact absurd enough (Nat.not_succ_le_zero _)
          | succ fuel =>
              rw [Parse.unionMembers]
              rw [List.length_cons] at enough rounds
              refine .once_bind advance_cons ?_
              dsimp only
              cases isEnd : endsUnion token with
              | true =>
                  have stays := @takeIf_of_false source entry past ahead token (!endsUnion ·)
                    (by rw [isEnd]; rfl)
                  rw [if_pos rfl, bind_of_ok stays]
                  exact .once_bind retreat_cons (ends_pure [] _)
              | false =>
                  have takes := @takeIf_of_true source entry past ahead token (!endsUnion ·)
                    (by rw [isEnd]; rfl)
                  rw [if_neg Bool.false_ne_true, bind_of_ok takes]
                  refine .bind (operand_ends token (by omega)) fun member behind ran => ?_
                  obtain ⟨taken, rest, rfl, rfl⟩ := (Parallel.operand token).behind ran
                  refine .once_bind rfl ?_
                  cases rest with
                  | nil =>
                      rw [bind_of_ok takeIf_nil]
                      refine .once_bind advance_nil ?_
                      exact .once_bind rfl (ends_pure [member] _)
                  | cons bar rest =>
                      refine .once_bind advance_cons ?_
                      dsimp only
                      rw [List.length_append, List.length_cons] at enough rounds
                      cases isBar : bar.isOperator .union with
                      | true =>
                          rw [if_pos rfl, bind_of_ok (takeIf_of_true isBar)]
                          exact .bind (inductionHypothesis (by omega) (by omega)) fun _ _ _ =>
                            ends_pure _ _
                      | false =>
                          rw [if_neg Bool.false_ne_true, bind_of_ok (takeIf_of_false isBar)]
                          exact .once_bind (resetTo_mark bar) (ends_pure [member] _)

private theorem union_ends (first : Node) (rounds : ahead.length < count) :
    Ends (Round.union (.within count) first) (.between source entry past ahead)
      (Parse.union first (.between source entry past ahead)) := by
  unfold Round.union Parse.union
  rw [bind_of_ok ahead_between]
  exact .bind (unionMembers_ends (Nat.le_refl _) rounds) fun _ _ _ => ends_once _ _

private theorem enterMain_eq_ok (entered : enterMain head (.between source entry past ahead) =
    (.ok (), behind)) : ∃ found, behind = .between source found past ahead := by
  cases entry with
  | none =>
      rw [enterMain_none] at entered
      cases entered
      exact ⟨_, rfl⟩
  | some location =>
      rw [enterMain_some] at entered
      cases entered

/-- The errors of a loop that ends can be seen differently. -/
theorem mapError_ends {loop : Loop Result} {step : Parse Result}
    (change : ParseError → ParseError) (ends : Ends loop parser (step parser)) :
    Ends (do return (← loop.run).mapError change : StateT Parser Option (Except ParseError Result))
      parser (step.mapError change parser) := by
  have ran : (do return (← loop.run).mapError change :
      StateT Parser Option (Except ParseError Result)).run parser =
        (loop.run.run parser).map fun found => (found.1.mapError change, found.2) := by
    change (loop.run.run parser).bind _ = _
    cases loop.run.run parser <;> rfl
  unfold Ends at ends ⊢
  refine ran.trans ?_
  rw [ends]
  unfold Parse.mapError
  cases step parser with
  | mk outcome behind => cases outcome <;> rfl

/-- Whether loops within so many rounds end with what the counted steps do, where the rounds and the
fuel cover the tokens ahead. -/
structure EndsWithin (count : Nat) : Prop where
  statement : ∀ fuel source entry past ahead head,
    2 * ahead.length + 1 ≤ fuel → 2 * ahead.length + 1 < count →
    Ends ((Loops.within count).statement head) (.between source entry past ahead)
      (statementWith fuel head (.between source entry past ahead))
  block : ∀ fuel source entry past ahead opening,
    2 * ahead.length ≤ fuel → 2 * ahead.length < count →
    Ends ((Loops.within count).blockStatements opening) (.between source entry past ahead)
      (blockStatementsWith fuel opening (.between source entry past ahead))
  expression : ∀ fuel source entry past ahead head,
    2 * ahead.length + 1 ≤ fuel → 2 * ahead.length + 1 < count →
    Ends ((Loops.within count).expression head) (.between source entry past ahead)
      (expressionWith fuel head (.between source entry past ahead))
  chain : ∀ fuel source entry past ahead first found,
    2 * ahead.length ≤ fuel → 2 * ahead.length < count →
    Ends ((Loops.within count).chain first found) (.between source entry past ahead)
      (chainWith fuel first found (.between source entry past ahead))

private theorem endsWithin_zero : EndsWithin 0 where
  statement _ _ _ _ _ _ _ rounds := absurd rounds (Nat.not_lt_zero _)
  block _ _ _ _ _ _ _ rounds := absurd rounds (Nat.not_lt_zero _)
  expression _ _ _ _ _ _ _ rounds := absurd rounds (Nat.not_lt_zero _)
  chain _ _ _ _ _ _ _ _ rounds := absurd rounds (Nat.not_lt_zero _)

section Step

variable (inner : EndsWithin count)

include inner

private theorem block_ends (enough : 2 * ahead.length ≤ fuel) (rounds : 2 * ahead.length < count)
    (opening : Token) :
    Ends (Round.block (.within count) opening) (.between source entry past ahead)
      (blockOf opening (blockStatementsWith fuel opening.position)
        (.between source entry past ahead)) := by
  unfold Round.block blockOf
  exact .bind (inner.block fuel source entry past ahead opening.position enough rounds) fun _ _ _ =>
    ends_once _ _

private theorem next_expression_ends {finish : Node → Loop Result} {rest : Node → Parse Result}
    (enough : 2 * ahead.length ≤ fuel + 1) (rounds : 2 * ahead.length ≤ count)
    (ends : ∀ value behind, Ends (finish value) behind (rest value behind)) :
    Ends (once next >>= fun head => (Loops.within count).expression head >>= finish)
      (.between source entry past ahead)
      ((next >>= fun head => expressionWith fuel head >>= rest)
        (.between source entry past ahead)) := by
  refine .bind (ends_once next _) fun head behind ran => ?_
  obtain ⟨ahead, rfl, rfl⟩ := next_eq_ok ran
  rw [List.length_cons] at enough rounds
  exact .bind (inner.expression fuel source entry _ ahead head (by omega) (by omega))
    fun value behind _ => ends value behind

private theorem binding_ends (enough : 2 * ahead.length ≤ fuel + 1)
    (rounds : 2 * ahead.length < count) (sign : Operator) (left : Node) (finish : Node → Result) :
    Ends
      (if sign = .union then do
        let bound ← Round.union (.within count) left
        return finish bound
      else do
        let right ← (Loops.within count).expression (← once next)
        let bound ← once (build (.assignment left right (left.location.through right.location)))
        return finish bound)
      (.between source entry past ahead)
      ((binding sign left (expressionWith fuel) >>= fun bound => pure (finish bound))
        (.between source entry past ahead)) := by
  unfold binding
  split
  · exact .bind (union_ends left (by omega)) fun _ _ _ => ends_pure _ _
  · rw [bind_assoc_eq]
    simp only [bind_assoc_eq]
    exact next_expression_ends inner enough (Nat.le_of_lt rounds) fun _ _ =>
      .bind (ends_once _ _) fun _ _ _ => ends_pure _ _

private theorem statement_ends_succ (enough : 2 * ahead.length ≤ fuel)
    (rounds : 2 * ahead.length < count) (head : Token) :
    Ends (Round.statement (.within count) head) (.between source entry past ahead)
      (statementWith (fuel + 1) head (.between source entry past ahead)) := by
  unfold Round.statement statementWith statementOf
  cases kind : head.kind with
  | keyword word =>
      cases word with
      | mainWord =>
          refine .bind (ends_once (enterMain head) _) fun _ behind entered => ?_
          obtain ⟨found, rfl⟩ := enterMain_eq_ok entered
          simp only [bind_assoc_eq]
          exact next_expression_ends inner (by omega) (by omega) fun value _ =>
            .bind (ends_once (calledValue value) _) fun _ _ _ => ends_once _ _
      | _ =>
          simp only [bind_assoc_eq]
          exact next_expression_ends inner (by omega) (by omega) fun _ _ => ends_once _ _
  | openBrace => exact block_ends inner enough rounds head
  | _ => exact ends_once _ _

private theorem blockStatements_ends_succ (enough : 2 * ahead.length ≤ fuel + 1)
    (rounds : 2 * ahead.length ≤ count) (opening : Position) :
    Ends (Round.blockStatements (.within count) opening) (.between source entry past ahead)
      (blockStatementsWith (fuel + 1) opening (.between source entry past ahead)) := by
  unfold Round.blockStatements
  cases ahead with
  | nil =>
      rw [blockStatementsWith_nil]
      exact .once_bind advance_nil (ends_once _ _)
  | cons token ahead =>
      refine .once_bind advance_cons ?_
      rw [List.length_cons] at enough rounds
      by_cases closes : token.kind = .closeBrace
      · rw [blockStatementsWith_close opening closes]
        simp only [closes]
        exact ends_pure _ _
      · by_cases starts : ∃ word, token.kind = .keyword word ∧ word.startsInner = true
        · obtain ⟨word, isKeyword, isInner⟩ := starts
          have noMain : word ≠ .mainWord := by
            rintro rfl
            cases isInner
          have first := mapError_ends (ParseError.insideBlock opening)
            (inner.statement fuel source entry (token :: past) ahead token (by omega) (by omega))
          have others (node : Node) (behind : Parser)
              (ran : (statementWith fuel token).mapError (.insideBlock opening)
                (.between source entry (token :: past) ahead) = (.ok node, behind)) :
              Ends (do
                let found ← (Loops.within count).blockStatements opening
                return (node :: found.1, found.2)) behind
                ((do
                  let found ← blockStatementsWith fuel opening
                  return (node :: found.1, found.2) : Parse (List Node × Location)) behind) := by
            obtain ⟨taken, rest, rfl, rfl⟩ := ((parallelWith .zero fuel).declaration token word
              isKeyword noMain).behind (mapError_eq_ok.mp ran)
            rw [List.length_append] at enough rounds
            exact .bind (inner.block fuel source entry _ rest opening (by omega) (by omega))
              fun _ _ _ => ends_pure _ _
          rw [blockStatementsWith_keyword opening isKeyword isInner]
          cases word with
          | typeWord => simp only [isKeyword]; exact first.bind others
          | letWord => simp only [isKeyword]; exact first.bind others
          | returnWord => simp only [isKeyword]; exact first.bind others
          | _ => cases isInner
        · have noKeyword : ∀ word, token.kind = .keyword word → word.startsInner = false :=
            fun word kind => Bool.eq_false_iff.mpr fun isInner => starts ⟨word, kind, isInner⟩
          rw [blockStatementsWith_other opening closes noKeyword]
          cases kind : token.kind with
          | closeBrace => contradiction
          | keyword word =>
              have notInner := noKeyword word kind
              simp only [kind]
              cases word <;> first | exact ends_once _ _ | cases notInner
          | _ =>
              simp only [kind]
              exact ends_once _ _

private theorem expression_ends_succ (enough : 2 * ahead.length ≤ fuel)
    (rounds : 2 * ahead.length < count) (head : Token) :
    Ends (Round.expression (.within count) head) (.between source entry past ahead)
      (expressionWith (fuel + 1) head (.between source entry past ahead)) := by
  rw [Round.expression, expressionWith]
  split
  · exact block_ends inner enough rounds head
  · refine .bind (operand_ends head (by omega)) fun first behind ran => ?_
    obtain ⟨taken, rest, rfl, rfl⟩ := (Parallel.operand head).behind ran
    rw [List.length_append] at enough rounds
    exact .bind (inner.chain fuel source entry _ rest first [] (by omega) (by omega)) fun _ _ _ =>
      ends_once _ _

private theorem chain_ends_succ (enough : 2 * ahead.length ≤ fuel + 1)
    (rounds : 2 * ahead.length ≤ count) (first : Node) (found : List (MathOperator × Node)) :
    Ends (Round.chain (.within count) first found) (.between source entry past ahead)
      (chainWith (fuel + 1) first found (.between source entry past ahead)) := by
  rw [Round.chain, chainWith]
  cases ahead with
  | nil =>
      have noOperator : ∀ first ∈ ([] : List Token).head?, first.kind.operator?.isSome = false :=
        nofun
      rw [bind_of_ok (takeOperator_of_head noOperator)]
      exact .once_bind advance_nil (ends_pure _ _)
  | cons token ahead =>
      refine .once_bind advance_cons ?_
      rw [List.length_cons] at enough rounds
      cases isSign : token.kind.operator? with
      | none =>
          have others : ∀ first ∈ (token :: ahead).head?, first.kind.operator?.isSome = false := by
            rintro _ ⟨⟩
            rw [isSign]
            rfl
          rw [bind_of_ok (takeOperator_of_head others)]
          simp only [isSign]
          exact .once_bind retreat_cons (ends_pure _ _)
      | some sign =>
          obtain ⟨other, isOperator⟩ := operator_of_isSome (by rw [isSign]; rfl)
          rw [isOperator] at isSign
          cases isSign
          rw [bind_of_ok (takeOperator_of_operator isOperator)]
          simp only [isOperator, TokenKind.operator?]
          cases MathOperator.ofOperator? sign with
          | none =>
              cases found with
              | nil => exact binding_ends inner (by omega) (by omega) sign first _
              | cons last earlier => exact binding_ends inner (by omega) (by omega) sign last.2 _
          | some operator =>
              refine .bind (ends_once next _) fun head behind ran => ?_
              obtain ⟨rest, rfl, rfl⟩ := next_eq_ok ran
              rw [List.length_cons] at enough rounds
              split
              · exact .bind (block_ends inner (by omega) (by omega) head) fun _ _ _ => ends_pure _ _
              · refine .bind (operand_ends head (by omega)) fun right behind ran => ?_
                obtain ⟨taken, rest, rfl, rfl⟩ := (Parallel.operand head).behind ran
                rw [List.length_append] at enough rounds
                exact inner.chain fuel source entry _ rest first _ (by omega) (by omega)

end Step

private theorem endsWithin (count : Nat) : EndsWithin count := by
  induction count with
  | zero => exact endsWithin_zero
  | succ count inductionHypothesis =>
      refine ⟨?_, ?_, ?_, ?_⟩
      · intro fuel source entry past ahead head enough rounds
        obtain ⟨fuel, rfl⟩ := Nat.exists_eq_succ_of_ne_zero (Nat.ne_zero_of_lt enough)
        exact statement_ends_succ inductionHypothesis (by omega) (by omega) head
      · intro fuel source entry past ahead opening enough rounds
        cases fuel with
        | zero =>
            obtain rfl : ahead = [] := List.length_eq_zero_iff.mp (by omega)
            exact .once_bind advance_nil (ends_once _ _)
        | succ fuel =>
            exact blockStatements_ends_succ inductionHypothesis enough (by omega) opening
      · intro fuel source entry past ahead head enough rounds
        obtain ⟨fuel, rfl⟩ := Nat.exists_eq_succ_of_ne_zero (Nat.ne_zero_of_lt enough)
        exact expression_ends_succ inductionHypothesis (by omega) (by omega) head
      · intro fuel source entry past ahead first found enough rounds
        cases fuel with
        | zero =>
            obtain rfl : ahead = [] := List.length_eq_zero_iff.mp (by omega)
            exact .once_bind advance_nil (ends_pure _ _)
        | succ fuel =>
            exact chain_ends_succ inductionHypothesis enough (by omega) first found

private theorem statement_ends (head : Token) (rounds : 2 * ahead.length + 1 < count) :
    Ends ((Loops.within count).statement head) (.between source entry past ahead)
      (Parse.statement head (.between source entry past ahead)) := by
  rw [statement_between]
  exact (endsWithin count).statement _ source entry past ahead head (Nat.le_refl _) rounds

private theorem statements_ends (enough : ahead.length ≤ fuel) (rounds : 2 * ahead.length < count) :
    Ends (Loops.within count).statements (.between source entry past ahead)
      (Parse.statements fuel (.between source entry past ahead)) := by
  induction count generalizing fuel entry past ahead with
  | zero => exact absurd rounds (Nat.not_lt_zero _)
  | succ count inductionHypothesis =>
      change Ends (Round.statements (.within count)) _ _
      unfold Round.statements
      cases ahead with
      | nil =>
          rw [statements_nil]
          exact .once_bind advance_nil (ends_pure [] _)
      | cons token ahead =>
          cases fuel with
          | zero => exact absurd enough (Nat.not_succ_le_zero _)
          | succ fuel =>
              rw [List.length_cons] at enough rounds
              rw [Parse.statements, bind_of_ok advance_cons]
              refine .once_bind advance_cons ?_
              refine .bind (statement_ends token (by omega)) fun first behind ran => ?_
              obtain ⟨found, taken, rest, rfl, rfl⟩ := (LooksAhead.statement token).behind ran
              rw [List.length_append] at enough rounds
              exact .bind (inductionHypothesis (by omega) (by omega)) fun _ _ _ => ends_pure _ _

private theorem program_ends (rounds : 2 * ahead.length < count) :
    Ends (Round.program (.within count)) (.between source entry past ahead)
      (Parse.program (.between source entry past ahead)) := by
  unfold Round.program Parse.program
  rw [bind_of_ok ahead_between]
  exact .bind (statements_ends (Nat.le_refl _) rounds) fun _ _ _ =>
    .bind (ends_once extent _) fun _ _ _ => ends_once _ _

end SprigCompiler.Parse.Loop

namespace SprigCompiler.Parse

variable {source : Source} {entry : Option Location} {past ahead : List Token} {count : Nat}
  {behind : Parser}

def Call.loop (count : Nat) : Call → Loop Node
  | program => Round.program (.within count)
  | statement head => (Loops.within count).statement head
  | expression head => (Loops.within count).expression head
  | block opening => Round.block (.within count) opening

private theorem Call.loop_ends (call : Call) (rounds : 2 * ahead.length + 1 < count) :
    Loop.Ends (call.loop count) (.between source entry past ahead)
      (call.run (.between source entry past ahead)) := by
  cases call with
  | program => exact Loop.program_ends (by omega)
  | statement head => exact Loop.statement_ends head rounds
  | expression head =>
      have counted : Parse.expression head (.between source entry past ahead) =
          expressionWith (2 * ahead.length + 1) head (.between source entry past ahead) :=
        bind_of_ok (bind_of_ok ahead_between)
      rw [run, counted]
      exact (Loop.endsWithin count).expression _ source entry past ahead head (Nat.le_refl _) rounds
  | block opening =>
      have counted : Parse.block opening (.between source entry past ahead) =
          blockOf opening (blockStatementsWith (2 * ahead.length + 1) opening.position)
            (.between source entry past ahead) :=
        bind_of_ok (bind_of_ok ahead_between)
      rw [run, counted]
      exact Loop.block_ends (Loop.endsWithin count) (Nat.le_succ _) (by omega) opening

/-- Statements are read until no token is left. -/
theorem statements_take_all {nodes : List Node} (enough : ahead.length ≤ count)
    (ran : statements count (.between source entry past ahead) = (.ok nodes, behind)) :
    ∃ found, behind = .between source found (ahead.reverse ++ past) [] := by
  induction count generalizing entry past ahead nodes with
  | zero =>
      obtain rfl : ahead = [] := List.length_eq_zero_iff.mp (Nat.le_zero.mp enough)
      cases ran
      exact ⟨entry, rfl⟩
  | succ count inductionHypothesis =>
      rw [statements] at ran
      cases ahead with
      | nil =>
          rw [bind_of_ok advance_nil] at ran
          cases ran
          exact ⟨entry, rfl⟩
      | cons token ahead =>
          rw [bind_of_ok advance_cons] at ran
          obtain ⟨first, middle, isFirst, ran⟩ := bind_eq_ok ran
          obtain ⟨others, middle, areOthers, ran⟩ := bind_eq_ok ran
          cases ran
          obtain ⟨found, taken, rest, rfl, rfl⟩ := (LooksAhead.statement token).behind isFirst
          rw [List.length_cons, List.length_append] at enough
          obtain ⟨last, rfl⟩ := inductionHypothesis (by omega) areOthers
          refine ⟨last, ?_⟩
          rw [List.reverse_cons, List.reverse_append, List.append_assoc, List.append_assoc,
            List.singleton_append]

private theorem program_takes_all {tree : Node}
    (ran : program (.between source entry past ahead) = (.ok tree, behind)) :
    ∃ found, behind = .between source found (ahead.reverse ++ past) [] := by
  unfold program at ran
  rw [bind_of_ok ahead_between] at ran
  obtain ⟨body, middle, areStatements, ran⟩ := bind_eq_ok ran
  obtain ⟨place, between, isExtent, ran⟩ := bind_eq_ok ran
  cases isExtent
  obtain ⟨_, _, rfl⟩ := build_eq_ok ran
  exact statements_take_all (Nat.le_refl _) areStatements

/-- Every call of the parser ends and only moves forward.  From every place within the tokens, the
loops come to an end within rounds linear in the number of tokens ahead, and with the outcome of the
counted steps.  Whatever the outcome is, the parser stands at or behind the place where it started
and not behind the last token, and its tokens are the same.  A program is only accepted when all
tokens are taken. -/
theorem Call.run_terminates (call : Call) (parser : Parser)
    (inside : parser.cursor.consumed ≤ parser.cursor.tokens.size) :
    (∀ count, 2 * parser.cursor.ahead + 1 < count →
      (call.loop count).run.run parser = some (call.run parser)) ∧
      parser.cursor.consumed ≤ (call.run parser).2.cursor.consumed ∧
      (call.run parser).2.cursor.consumed ≤ parser.cursor.tokens.size ∧
      (call.run parser).2.cursor.tokens = parser.cursor.tokens ∧
      (call = .program → ∀ tree, (call.run parser).1 = .ok tree →
        (call.run parser).2.cursor.consumed = parser.cursor.tokens.size) := by
  obtain ⟨source, past, ahead, entry, rfl⟩ :
      ∃ source past ahead entry, parser = .between source entry past ahead :=
    ⟨_, _, _, _, eq_between inside⟩
  have isAhead : (Parser.between source entry past ahead).cursor.ahead = ahead.length := by
    simp [Parser.between, Cursor.ahead]
  rw [isAhead]
  refine ⟨fun count rounds => call.loop_ends rounds, ?_⟩
  cases ran : call.run (.between source entry past ahead) with
  | mk outcome behind =>
      obtain ⟨found, taken, rest, rfl, rfl⟩ := call.looksAhead.behind ran
      refine ⟨?_, ?_, ?_, ?_⟩
      · simp [Parser.between]
      · simp [Parser.between]
        omega
      · simp [Parser.between]
      · rintro rfl tree rfl
        obtain ⟨last, stands⟩ := program_takes_all ran
        rw [stands]
        simp [Parser.between]
        omega

/-- A union with a blank among its tokens, in a parser that has met a main declaration. -/
theorem Call.run_terminates_blank :
    let place : Location := ⟨1, 0, 0, 1⟩
    let name : Token := ⟨.identifier, "A", place⟩
    let bar : Token := ⟨.operator .union, "|", place⟩
    let blank : Token := ⟨.whitespace, " ", place⟩
    let parser : Parser := ⟨.ofString "", ⟨#[name, bar, name, blank], 1⟩, some place⟩
    parser.cursor.consumed ≤ parser.cursor.tokens.size ∧
      ((Call.expression name).loop 8).run.run parser = some ((Call.expression name).run parser) ∧
      1 ≤ ((Call.expression name).run parser).2.cursor.consumed ∧
      ((Call.expression name).run parser).2.cursor.consumed ≤ 4 := by
  intro place name bar blank parser
  have inside : parser.cursor.consumed ≤ parser.cursor.tokens.size := by decide
  obtain ⟨ends, forward, within, _⟩ := Call.run_terminates (.expression name) parser inside
  exact ⟨inside, ends 8 (by decide), forward, within⟩

end SprigCompiler.Parse
