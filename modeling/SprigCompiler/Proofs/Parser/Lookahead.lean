import SprigCompiler.Proofs.Parser.Locality
import SprigCompiler.Proofs.Parser.Programs

/-!
The parser looks one token ahead.

However a call ends, its outcome depends on the tokens before the place where it leaves the cursor
and on the token there, or on the fact that there is none.  The tokens behind that one could be any.

The number of tokens ahead is where the parser takes its fuel from, so it has to be shown first that
more fuel than a call needs changes nothing.
-/

namespace SprigCompiler.Parse

open Movable (move)

variable {Result First Second : Type} {source : Source} {entry : Option Location}
  {past ahead : List Token} {fuel : Nat} {head : Token}

/-! ### Fuel that is enough -/

/-- Whether one more unit of fuel changes nothing where the fuel covers the tokens ahead. -/
structure Covers (fuel : Nat) : Prop where
  statement : ∀ source entry past ahead head, 2 * ahead.length + 1 ≤ fuel →
    statementWith (fuel + 1) head (.between source entry past ahead) =
      statementWith fuel head (.between source entry past ahead)
  block : ∀ source entry past ahead opening, 2 * ahead.length ≤ fuel →
    blockStatementsWith (fuel + 1) opening (.between source entry past ahead) =
      blockStatementsWith fuel opening (.between source entry past ahead)
  expression : ∀ source entry past ahead head, 2 * ahead.length + 1 ≤ fuel →
    expressionWith (fuel + 1) head (.between source entry past ahead) =
      expressionWith fuel head (.between source entry past ahead)
  tail : ∀ source entry past ahead left, 2 * ahead.length ≤ fuel →
    tailWith (fuel + 1) left (.between source entry past ahead) =
      tailWith fuel left (.between source entry past ahead)

private theorem covers_zero : Covers 0 where
  statement _ _ _ _ _ enough := absurd enough (Nat.not_succ_le_zero _)
  expression _ _ _ _ _ enough := absurd enough (Nat.not_succ_le_zero _)
  block source entry past ahead opening enough := by
    have isEmpty : ahead = [] := List.length_eq_zero_iff.mp (by omega)
    subst isEmpty
    exact blockStatementsWith_nil opening
  tail source entry past ahead left enough := by
    have isEmpty : ahead = [] := List.length_eq_zero_iff.mp (by omega)
    subst isEmpty
    have ends : Ends [] := fun _ isFirst => nomatch isFirst
    exact (tailWith_ends ends left).trans (tailWith_ends ends left).symm

theorem expressionWith_covered (covers : Covers fuel) (enough : 2 * ahead.length ≤ fuel) :
    expressionWith (fuel + 2) head (.between source entry past ahead) =
      expressionWith (fuel + 1) head (.between source entry past ahead) := by
  rw [expressionWith_succ, expressionWith_succ]
  split
  · exact bind_of_eq (covers.block source entry past ahead head.position enough) _
  · refine bind_congr_of_ok fun left behind ran => ?_
    obtain ⟨taken, rest, rfl, rfl⟩ := (Parallel.operand head).behind ran
    rw [List.length_append] at enough
    exact covers.tail source entry _ rest left (by omega)

theorem next_expressionWith_covered (covers : Covers fuel) (enough : 2 * ahead.length ≤ fuel + 1) :
    (next >>= expressionWith (fuel + 1)) (.between source entry past ahead) =
      (next >>= expressionWith fuel) (.between source entry past ahead) := by
  refine bind_congr_of_ok fun head behind ran => ?_
  obtain ⟨rest, rfl, rfl⟩ := next_eq_ok ran
  rw [List.length_cons] at enough
  exact covers.expression source entry _ rest head (by omega)

private theorem binding_covered (covers : Covers fuel) (sign : Operator) (left : Node)
    (enough : 2 * ahead.length ≤ fuel + 1) :
    binding sign left (expressionWith (fuel + 1)) (.between source entry past ahead) =
      binding sign left (expressionWith fuel) (.between source entry past ahead) := by
  unfold binding
  split
  · rfl
  · rw [← bind_assoc_eq, ← bind_assoc_eq]
    exact bind_of_eq (next_expressionWith_covered covers enough) _

private theorem tailWith_covered (covers : Covers fuel) (left : Node)
    (enough : 2 * ahead.length ≤ fuel + 1) :
    tailWith (fuel + 2) left (.between source entry past ahead) =
      tailWith (fuel + 1) left (.between source entry past ahead) := by
  rw [tailWith_succ, tailWith_succ]
  refine bind_congr_of_ok fun found behind ran => ?_
  cases found with
  | none => rfl
  | some sign =>
      obtain ⟨operator, rest, rfl, _, rfl⟩ := takeOperator_eq_some ran
      rw [List.length_cons] at enough
      cases arithmetic : MathOperator.ofOperator? sign with
      | none =>
          simp only [arithmetic]
          exact binding_covered covers sign left (by omega)
      | some operator =>
          simp only [arithmetic]
          refine bind_congr_of_ok fun head behind ran => ?_
          obtain ⟨rest, rfl, rfl⟩ := next_eq_ok ran
          rw [List.length_cons] at enough
          exact bind_of_eq (expressionWith_covered covers (by omega)) _

private theorem statementWith_covered (covers : Covers fuel) (enough : 2 * ahead.length ≤ fuel) :
    statementWith (fuel + 2) head (.between source entry past ahead) =
      statementWith (fuel + 1) head (.between source entry past ahead) := by
  have value : ∀ entry, (next >>= expressionWith (fuel + 1)) (.between source entry past ahead) =
      (next >>= expressionWith fuel) (.between source entry past ahead) :=
    fun entry => next_expressionWith_covered covers (by omega)
  by_cases isKeyword : ∃ word, head.kind = .keyword word
  · obtain ⟨word, isKeyword⟩ := isKeyword
    by_cases isMain : word = .mainWord
    · subst isMain
      rw [statementWith_main isKeyword, statementWith_main isKeyword]
      refine bind_congr_of_ok fun _ behind entered => ?_
      obtain ⟨entry, rfl⟩ : ∃ found, behind = .between source found past ahead := by
        cases entry with
        | none =>
            rw [enterMain_none] at entered
            cases entered
            exact ⟨_, rfl⟩
        | some location =>
            rw [enterMain_some] at entered
            cases entered
      unfold statementOf
      refine bind_of_eq ?_ _
      rw [← bind_assoc_eq, ← bind_assoc_eq]
      exact bind_of_eq (value entry) _
    · rw [statementWith_of_keyword isKeyword isMain, statementWith_of_keyword isKeyword isMain]
      exact bind_of_eq (value entry) _
  · by_cases isBrace : head.kind = .openBrace
    · rw [statementWith_brace isBrace, statementWith_brace isBrace]
      exact bind_of_eq (covers.block source entry past ahead head.position enough) _
    · have noKeyword : head.kind.isKeyword = false := by
        cases kind : head.kind with
        | keyword word => exact absurd ⟨word, kind⟩ isKeyword
        | _ => rfl
      rw [statementWith_other noKeyword isBrace, statementWith_other noKeyword isBrace]

private theorem blockStatementsWith_covered (covers : Covers fuel) (opening : Position)
    (enough : 2 * ahead.length ≤ fuel + 1) :
    blockStatementsWith (fuel + 2) opening (.between source entry past ahead) =
      blockStatementsWith (fuel + 1) opening (.between source entry past ahead) := by
  cases ahead with
  | nil => rw [blockStatementsWith_nil, blockStatementsWith_nil]
  | cons token rest =>
      rw [List.length_cons] at enough
      by_cases closes : token.kind = .closeBrace
      · rw [blockStatementsWith_close opening closes, blockStatementsWith_close opening closes]
      · by_cases starts : ∃ word, token.kind = .keyword word ∧ word.startsInner = true
        · obtain ⟨word, isKeyword, isInner⟩ := starts
          rw [blockStatementsWith_keyword opening isKeyword isInner,
            blockStatementsWith_keyword opening isKeyword isInner]
          have same : (statementWith (fuel + 1) token).mapError (.insideBlock opening)
              (.between source entry (token :: past) rest) =
                (statementWith fuel token).mapError (.insideBlock opening)
                  (.between source entry (token :: past) rest) := by
            unfold mapError
            rw [covers.statement source entry _ rest token (by omega)]
          apply (bind_of_eq same _).trans
          refine bind_congr_of_ok fun first behind ran => ?_
          have noMain : word ≠ .mainWord := by
            rintro rfl
            cases isInner
          obtain ⟨taken, rest, rfl, rfl⟩ := ((parallelWith .zero fuel).declaration token word
            isKeyword noMain).behind (mapError_eq_ok.mp ran)
          rw [List.length_append] at enough
          exact bind_of_eq (covers.block source entry _ rest opening (by omega)) _
        · have noKeyword : ∀ word, token.kind = .keyword word → word.startsInner = false :=
            fun word kind => Bool.eq_false_iff.mpr fun isInner => starts ⟨word, kind, isInner⟩
          rw [blockStatementsWith_other opening closes noKeyword,
            blockStatementsWith_other opening closes noKeyword]

theorem covers (fuel : Nat) : Covers fuel := by
  induction fuel with
  | zero => exact covers_zero
  | succ fuel inductionHypothesis =>
      exact {
        statement := fun _ _ _ _ _ enough =>
          statementWith_covered inductionHypothesis (Nat.le_of_succ_le_succ enough)
        block := fun _ _ _ _ => blockStatementsWith_covered inductionHypothesis
        expression := fun _ _ _ _ _ enough =>
          expressionWith_covered inductionHypothesis (Nat.le_of_succ_le_succ enough)
        tail := fun _ _ _ _ => tailWith_covered inductionHypothesis }

/-- More fuel than is enough changes nothing. -/
theorem eq_of_covered {step : Nat → Parse Result} {parser : Parser} {least fuel : Nat}
    (covered : ∀ fuel, least ≤ fuel → step (fuel + 1) parser = step fuel parser)
    (enough : least ≤ fuel) : step fuel parser = step least parser := by
  induction enough with
  | refl => rfl
  | step enough inductionHypothesis => exact (covered _ enough).trans inductionHypothesis

theorem saturates_statementWith (head : Token) :
    Saturates fun count => statementWith (2 * count + 1) head := by
  intro source entry past ahead count enough
  exact @eq_of_covered _ (fun fuel => statementWith fuel head) _ _ _
    (fun fuel => (covers fuel).statement source entry past ahead head) (by omega)

private theorem saturates_expressionWith (head : Token) :
    Saturates fun count => expressionWith (2 * count + 1) head := by
  intro source entry past ahead count enough
  exact @eq_of_covered _ (fun fuel => expressionWith fuel head) _ _ _
    (fun fuel => (covers fuel).expression source entry past ahead head) (by omega)

private theorem saturates_blockStatementsWith (opening : Position) :
    Saturates fun count => blockStatementsWith (2 * count + 1) opening := by
  intro source entry past ahead count enough
  exact @eq_of_covered _ (fun fuel => blockStatementsWith fuel opening) _ _ _
    (fun fuel enough => (covers fuel).block source entry past ahead opening (by omega)) (by omega)

private theorem saturates_next_expressionWith :
    Saturates fun count => next >>= expressionWith (2 * count) := by
  intro source entry past ahead count enough
  refine bind_congr_of_ok fun head behind ran => ?_
  obtain ⟨rest, rfl, rfl⟩ := next_eq_ok ran
  rw [List.length_cons] at enough
  have least : ∀ fuel, 2 * rest.length + 1 ≤ fuel →
      expressionWith fuel head (.between source entry (head :: past) rest) =
        expressionWith (2 * rest.length + 1) head (.between source entry (head :: past) rest) :=
    fun fuel => @eq_of_covered _ (fun fuel => expressionWith fuel head) _ _ _
      (fun fuel => (covers fuel).expression source entry (head :: past) rest head)
  rw [List.length_cons, least _ (by omega), least (2 * (rest.length + 1)) (by omega)]

theorem headFuel_bind (step : Nat → Parse Result) :
    (headFuel >>= step) = Parse.ahead >>= fun count => step (2 * count + 1) :=
  bind_assoc_eq _ _ _

theorem statement_eq (head : Token) :
    statement head = Parse.ahead >>= fun count => statementWith (2 * count + 1) head :=
  headFuel_bind _

variable {shift : Shift}

protected theorem Parallel.expression (head : Token) :
    Parallel shift (expression head) (expression (move shift head)) := by
  unfold expression
  rw [headFuel_bind, headFuel_bind]
  exact .ahead_bind (fun count => (parallelWith shift _).expression head)
    (saturates_expressionWith head) (saturates_expressionWith _)

protected theorem Parallel.block (opening : Token) :
    Parallel shift (block opening) (block (move shift opening)) := by
  unfold block
  rw [headFuel_bind, headFuel_bind]
  exact .ahead_bind (fun count => .blockOf opening ((parallelWith shift _).block _))
    ((saturates_blockStatementsWith _).bind _) ((saturates_blockStatementsWith _).bind _)

/-- Every statement but a main declaration leaves the entry point alone. -/
protected theorem Parallel.statement {head : Token} (noMain : head.kind ≠ .keyword .mainWord) :
    Parallel shift (statement head) (statement (move shift head)) := by
  rw [statement_eq, statement_eq]
  refine .ahead_bind (fun count => ?_) (saturates_statementWith head) (saturates_statementWith _)
  by_cases isKeyword : head.kind.isKeyword = true
  · cases kind : head.kind with
    | keyword word =>
        exact (parallelWith shift _).declaration head word kind fun isMain =>
          noMain (isMain ▸ kind)
    | _ =>
        rw [kind] at isKeyword
        cases isKeyword
  · have noKeyword : head.kind.isKeyword = false := Bool.eq_false_iff.mpr isKeyword
    by_cases isBrace : head.kind = .openBrace
    · rw [statementWith_brace isBrace,
        statementWith_brace (show (move shift head).kind = .openBrace from isBrace)]
      exact .blockOf head ((parallelWith shift _).block _)
    · rw [statementWith_other noKeyword isBrace,
        statementWith_other (show (move shift head).kind.isKeyword = false from noKeyword) isBrace]
      exact .unexpected head

protected theorem Parallel.calledValue (value : Node) :
    Parallel shift (calledValue value) (calledValue (move shift value)) := by
  cases value with
  | identifier text location =>
      exact Parallel.build (.application .call (.identifier text location) [] location)
  | _ => exact Parallel.pure _

def mainBehind (head : Token) : Parse Node := do
  let count ← Parse.ahead
  statementOf .main head (do calledValue (← expressionWith (2 * count) (← next)))

theorem statement_of_main (isMain : head.kind = .keyword .mainWord) :
    statement head = enterMain head >>= fun _ => mainBehind head := by
  funext parser
  rw [statement_eq]
  simp only [statementWith_main isMain]
  -- To note the entry point takes no token.
  obtain ⟨source, cursor, entry⟩ := parser
  cases entry <;> rfl

theorem saturates_mainBehind (head : Token) : Saturates fun count =>
    statementOf .main head (do calledValue (← expressionWith (2 * count) (← next))) := by
  have regroup : ∀ count, (do calledValue (← expressionWith (2 * count) (← next))) =
      next >>= expressionWith (2 * count) >>= calledValue :=
    fun count => (bind_assoc_eq _ _ _).symm
  simp only [regroup]
  exact (saturates_next_expressionWith.bind _).bind _

protected theorem Parallel.mainBehind (head : Token) :
    Parallel shift (mainBehind head) (mainBehind (move shift head)) := by
  refine .ahead_bind (fun count => ?_) (saturates_mainBehind head) (saturates_mainBehind _)
  refine .statementOf .main head (Parallel.next.bind fun start => ?_)
  exact ((parallelWith shift _).expression start).bind Parallel.calledValue

/-! ### Looking one token ahead -/

/-- Whether a step runs in the same way on all tokens that agree on those it takes and on the first
one behind them. -/
def LooksAhead (step : Parse Result) : Prop :=
  ∀ (source : Source) (entry : Option Location) (past ahead : List Token),
    ∃ (outcome : Except ParseError Result) (found : Option Location) (taken rest : List Token),
      ahead = taken ++ rest ∧
      ∀ others : List Token, others.head? = rest.head? →
        step (.between source entry past (taken ++ others)) =
          (outcome, .between source found (taken.reverse ++ past) others)

protected theorem Parallel.looksAhead [Movable Result] {step : Parse Result}
    (parallel : Parallel .zero step step) : LooksAhead step := by
  intro source entry past ahead
  obtain ⟨outcome, taken, rest, rfl, ran, runs⟩ :=
    parallel past past (.refl past) source entry ahead
  have stays : rest.head? = move .zero rest.head? := by
    cases rest <;> rfl
  refine ⟨move .zero outcome, entry, taken, rest, rfl, ?_⟩
  intro others sameHead
  have ran := runs source entry others (fun _ => rfl) (.inl (sameHead.trans stays))
  rwa [Shift.move_zero_tokens] at ran

protected theorem LooksAhead.bind {step : Parse First} {rest : First → Parse Second}
    (first : LooksAhead step) (second : ∀ result, LooksAhead (rest result)) :
    LooksAhead (step >>= rest) := by
  intro source entry past ahead
  obtain ⟨outcome, found, taken, behind, rfl, runs⟩ := first source entry past ahead
  cases outcome with
  | error error =>
      refine ⟨.error error, found, taken, behind, rfl, ?_⟩
      intro others sameHead
      exact bind_of_error (runs others sameHead)
  | ok result =>
      obtain ⟨outcome, last, further, left, rfl, more⟩ :=
        second result source found (taken.reverse ++ past) behind
      refine ⟨outcome, last, taken ++ further, left, (List.append_assoc _ _ _).symm, ?_⟩
      intro others sameHead
      have sameFirst : (further ++ others).head? = (further ++ left).head? := by
        cases further with
        | nil => exact sameHead
        | cons => rfl
      rw [List.append_assoc, bind_of_ok (runs _ sameFirst), more others sameHead,
        List.reverse_append, List.append_assoc]

theorem LooksAhead.behind {step : Parse Result} (looksAhead : LooksAhead step)
    {outcome : Except ParseError Result} {behind : Parser}
    (ran : step (.between source entry past ahead) = (outcome, behind)) :
    ∃ found taken rest, ahead = taken ++ rest ∧
      behind = .between source found (taken.reverse ++ past) rest := by
  obtain ⟨_, found, taken, rest, rfl, runs⟩ := looksAhead source entry past ahead
  rw [runs rest rfl] at ran
  exact ⟨found, taken, rest, rfl, (congrArg Prod.snd ran).symm⟩

protected theorem LooksAhead.enterMain (head : Token) : LooksAhead (enterMain head) := by
  intro source entry past ahead
  cases entry with
  | none => exact ⟨_, _, [], ahead, rfl, fun _ _ => enterMain_none⟩
  | some location => exact ⟨_, _, [], ahead, rfl, fun _ _ => enterMain_some location⟩

protected theorem LooksAhead.statement (head : Token) : LooksAhead (statement head) := by
  by_cases isMain : head.kind = .keyword .mainWord
  · rw [statement_of_main isMain]
    exact (LooksAhead.enterMain head).bind fun _ => (Parallel.mainBehind head).looksAhead
  · exact (Parallel.statement isMain).looksAhead

private theorem LooksAhead.advance_bind {rest : Option Token → Parse Result}
    {outcome : Except ParseError Result} (stops : ∀ parser, rest none parser = (outcome, parser))
    (goesOn : ∀ token, LooksAhead (rest (some token))) : LooksAhead (advance >>= rest) := by
  intro source entry past ahead
  cases ahead with
  | nil =>
      refine ⟨outcome, entry, [], [], rfl, ?_⟩
      intro others sameHead
      rw [List.head?_eq_none_iff.mp sameHead]
      exact (bind_of_ok advance_nil).trans (stops _)
  | cons token ahead =>
      obtain ⟨outcome, found, taken, behind, rfl, runs⟩ :=
        goesOn token source entry (token :: past) ahead
      refine ⟨outcome, found, token :: taken, behind, rfl, ?_⟩
      intro others sameHead
      rw [List.cons_append, bind_of_ok advance_cons, runs others sameHead, List.reverse_cons,
        List.append_assoc]
      rfl

protected theorem LooksAhead.pure (result : Result) : LooksAhead (pure result : Parse Result) :=
  fun _ entry _ ahead => ⟨.ok result, entry, [], ahead, rfl, fun _ _ => rfl⟩

private theorem LooksAhead.ahead_bind {step : Nat → Parse Result}
    (looksAhead : ∀ count, LooksAhead (step count)) (saturates : Saturates step) :
    LooksAhead (Parse.ahead >>= step) := by
  intro source entry past ahead
  obtain ⟨outcome, found, taken, rest, rfl, runs⟩ :=
    looksAhead ahead.length source entry past ahead
  refine ⟨outcome, found, taken, rest, rfl, ?_⟩
  intro others sameHead
  -- A count that is enough for both runs.
  let count := max (taken ++ rest).length (taken ++ others).length
  obtain ⟨outcome', found', taken', rest', split', runs'⟩ :=
    looksAhead count source entry past (taken ++ rest)
  have ran := (runs rest rfl).symm.trans
    (saturates source entry past (taken ++ rest) count (Nat.le_max_left _ _)).symm
  rw [split', runs' rest' rfl] at ran
  obtain ⟨rfl, stands⟩ := Prod.mk.inj ran
  have sameEntry : found = found' := congrArg Parser.entryPoint stands
  subst sameEntry
  obtain ⟨rfl, rfl⟩ := between_injective rfl split' stands
  apply (bind_of_ok ahead_between).trans
  rw [← saturates source entry past (taken ++ others) count (Nat.le_max_right _ _)]
  exact runs' others sameHead

protected theorem LooksAhead.statements (count : Nat) : LooksAhead (statements count) := by
  induction count with
  | zero => exact .pure []
  | succ count inductionHypothesis =>
      unfold statements
      refine .advance_bind (fun _ => rfl) fun token => ?_
      exact (LooksAhead.statement token).bind fun first =>
        inductionHypothesis.bind fun rest => .pure (first :: rest)

theorem saturates_statements : Saturates statements := by
  intro source entry past ahead count enough
  induction length : ahead.length using Nat.strongRecOn generalizing entry past ahead count with
  | _ bound inductionHypothesis =>
      subst length
      cases ahead with
      | nil => rw [statements_nil, statements_nil]
      | cons token ahead =>
          obtain ⟨count, rfl⟩ : ∃ less, count = less + 1 := ⟨count - 1, by
            simp only [List.length_cons] at enough
            omega⟩
          simp only [List.length_cons] at enough inductionHypothesis ⊢
          unfold statements
          rw [bind_of_ok advance_cons, bind_of_ok advance_cons]
          refine bind_congr_of_ok fun first behind ran => ?_
          obtain ⟨found, taken, rest, rfl, rfl⟩ := (LooksAhead.statement token).behind ran
          simp only [List.length_append] at enough inductionHypothesis ⊢
          refine bind_of_eq ?_ _
          rw [inductionHypothesis rest.length (by omega) found _ rest count (by omega) rfl]
          symm
          exact inductionHypothesis rest.length (by omega) found _ rest _ (by omega) rfl

protected theorem LooksAhead.program : LooksAhead program := by
  refine .ahead_bind (fun count => ?_) (saturates_statements.bind _)
  refine (LooksAhead.statements count).bind fun body => ?_
  intro source entry past ahead
  refine ⟨(Node.program body source.extent).checked.mapError .invalidNode, entry, [], ahead, rfl,
    ?_⟩
  intro others _
  exact (bind_of_ok rfl).trans (build_eq_checked (.program body source.extent) _)

/-! ### Calls from outside -/

/-- The ways in which a parser is asked to go on, with the token at which a statement, an
expression or a block starts and which has been taken. -/
inductive Call where
  | program
  | statement (head : Token)
  | expression (head : Token)
  | block (opening : Token)

def Call.run : Call → Parse Node
  | program => Parse.program
  | statement head => Parse.statement head
  | expression head => Parse.expression head
  | block opening => Parse.block opening

theorem Call.looksAhead (call : Call) : LooksAhead call.run := by
  cases call with
  | program => exact .program
  | statement head => exact .statement head
  | expression head => exact (Parallel.expression head).looksAhead
  | block opening => exact (Parallel.block opening).looksAhead

theorem eq_between {parser : Parser} (within : parser.cursor.consumed ≤ parser.cursor.tokens.size) :
    parser = .between parser.source parser.entryPoint
      (parser.cursor.tokens.toList.take parser.cursor.consumed).reverse
      (parser.cursor.tokens.toList.drop parser.cursor.consumed) := by
  obtain ⟨source, ⟨tokens, consumed⟩, entry⟩ := parser
  have length : (tokens.toList.take consumed).reverse.length = consumed := by
    rw [List.length_reverse, List.length_take]
    exact Nat.min_eq_left within
  simp only [Parser.between, List.reverse_reverse, List.take_append_drop, length]

private theorem tokens_between (source : Source) (entry : Option Location) (past ahead : List Token)
    (index : Nat) :
    (Parser.between source entry past ahead).cursor.tokens[index]? =
      (past.reverse ++ ahead)[index]? := by
  simp [Parser.between]

private theorem eq_append_of_agree {tokens others taken rest : List Token}
    (split : tokens = taken ++ rest)
    (agree : ∀ index ≤ taken.length, others[index]? = tokens[index]?) :
    ∃ behind, others = taken ++ behind ∧ behind.head? = rest.head? := by
  subst split
  have front : others.take taken.length = taken := by
    apply List.ext_getElem?
    intro index
    by_cases inside : index < taken.length
    · rw [List.getElem?_take_of_lt inside, agree index (Nat.le_of_lt inside),
        List.getElem?_append_left inside]
    · have atMost := Nat.le_of_not_lt inside
      rw [List.getElem?_take_eq_none atMost, List.getElem?_eq_none atMost]
  refine ⟨others.drop taken.length, ?_, ?_⟩
  · rw [← congrArg (· ++ others.drop taken.length) front, List.take_append_drop]
  · rw [List.head?_drop, agree taken.length (Nat.le_refl _),
      List.getElem?_append_right (Nat.le_refl _), Nat.sub_self, ← List.head?_eq_getElem?]

/-- A call does on another parser what it does on the first one, if the two agree on everything up
to the token in front of which the first one ends. -/
theorem LooksAhead.agrees {step : Parse Result} (looksAhead : LooksAhead step)
    {first second : Parser} (within : first.cursor.consumed ≤ first.cursor.tokens.size)
    (sameSource : second.source = first.source) (sameEntry : second.entryPoint = first.entryPoint)
    (samePlace : second.cursor.consumed = first.cursor.consumed)
    (agree : ∀ index ≤ (step first).2.cursor.consumed,
      second.cursor.tokens[index]? = first.cursor.tokens[index]?) :
    (step second).1 = (step first).1 ∧
      (step second).2.cursor.consumed = (step first).2.cursor.consumed ∧
      (step second).2.entryPoint = (step first).2.entryPoint := by
  obtain ⟨source, past, ahead, entry, rfl⟩ :
      ∃ source past ahead entry, first = .between source entry past ahead :=
    ⟨_, _, _, _, eq_between within⟩
  obtain ⟨outcome, found, taken, rest, rfl, runs⟩ := looksAhead source entry past ahead
  have ran := runs rest rfl
  rw [ran] at agree ⊢
  have ended : (past.reverse ++ taken).length =
      (Parser.between source found (taken.reverse ++ past) rest).cursor.consumed := by
    simp [Parser.between, Nat.add_comm]
  obtain ⟨behind, others, sameHead⟩ := @eq_append_of_agree _ second.cursor.tokens.toList
    (past.reverse ++ taken) rest (List.append_assoc _ _ _).symm fun index inside => by
      have agree := agree index (ended ▸ inside)
      rw [tokens_between] at agree
      simpa using agree
  have isBetween : second = .between source entry past (taken ++ behind) := by
    obtain ⟨otherSource, ⟨tokens, consumed⟩, otherEntry⟩ := second
    cases sameSource
    cases sameEntry
    cases samePlace
    unfold Parser.between
    rw [← List.append_assoc, ← others]
  rw [isBetween, runs behind sameHead]
  refine ⟨rfl, ?_, rfl⟩
  simp [Parser.between]

/-- The parser looks one token ahead in every outcome: a call gives the same result and ends at the
same place for all tokens that agree up to the place where it ends and on the token there.  So an
error that is raised while tokens remain is final. -/
theorem Call.run_lookahead (call : Call) (first second : Parser)
    (within : first.cursor.consumed ≤ first.cursor.tokens.size)
    (sameSource : second.source = first.source) (sameEntry : second.entryPoint = first.entryPoint)
    (samePlace : second.cursor.consumed = first.cursor.consumed)
    (agree : ∀ index ≤ (call.run first).2.cursor.consumed,
      second.cursor.tokens[index]? = first.cursor.tokens[index]?) :
    ((call.run second).1 = (call.run first).1 ∧
      (call.run second).2.cursor.consumed = (call.run first).2.cursor.consumed ∧
      (call.run second).2.entryPoint = (call.run first).2.entryPoint) ∧
    ∀ error, (call.run first).1 = .error error →
      (call.run first).2.cursor.consumed < first.cursor.tokens.size →
      ∀ more : List Token,
        (call.run ⟨first.source,
          ⟨(first.cursor.tokens.toList.take ((call.run first).2.cursor.consumed + 1) ++
            more).toArray, first.cursor.consumed⟩, first.entryPoint⟩).1 = .error error := by
  refine ⟨call.looksAhead.agrees within sameSource sameEntry samePlace agree, ?_⟩
  intro error failed remain more
  let other : Parser := ⟨first.source,
    ⟨(first.cursor.tokens.toList.take ((call.run first).2.cursor.consumed + 1) ++ more).toArray,
      first.cursor.consumed⟩, first.entryPoint⟩
  have agree : ∀ index ≤ (call.run first).2.cursor.consumed,
      other.cursor.tokens[index]? = first.cursor.tokens[index]? := by
    intro index inside
    have within : index < (first.cursor.tokens.toList.take
        ((call.run first).2.cursor.consumed + 1)).length := by
      rw [List.length_take, Array.length_toList]
      omega
    rw [List.getElem?_toArray, List.getElem?_append_left within,
      List.getElem?_take_of_lt (Nat.lt_succ_of_le inside), Array.getElem?_toList]
  rw [← failed]
  have same := @LooksAhead.agrees _ _ call.looksAhead first other within rfl rfl rfl agree
  exact same.1

/-- A block in which `main` stands is refused whatever follows. -/
theorem Call.run_lookahead_main :
    let brace : Token := ⟨.openBrace, "\x7b", ⟨1, 0, 0, 1⟩⟩
    let main : Token := ⟨.keyword .mainWord, "main", ⟨1, 2, 2, 6⟩⟩
    let name : Token := ⟨.identifier, "x", ⟨1, 7, 7, 8⟩⟩
    let close : Token := ⟨.closeBrace, "\x7d", ⟨1, 9, 9, 10⟩⟩
    ((Call.block brace).run ⟨.ofString "", ⟨#[brace, main, name, close], 1⟩, none⟩).1 =
      .error (.incomplete ⟨1, 0⟩) := by
  intro brace main name close
  let first : Parser := ⟨.ofString "", ⟨#[brace, main, name], 1⟩, none⟩
  let second : Parser := ⟨.ofString "", ⟨#[brace, main, name, close], 1⟩, none⟩
  have agree : ∀ index ≤ 2, second.cursor.tokens[index]? = first.cursor.tokens[index]? := by
    decide
  exact (Call.run_lookahead (.block brace) first second (by decide) rfl rfl rfl agree).1.1.trans rfl

end SprigCompiler.Parse
