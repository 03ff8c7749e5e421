import SprigCompiler.Proofs.Parser.Lookahead

/-!
Expressions by descent.

The parser reads a chain of operands in a loop and groups it from its right end.  The rule that the
loop follows is a recursion: an operator takes the expression behind it as its right side.  The
expressions of the parser are the one and only solution of this recursion, at every place among the
tokens and with every outcome.
-/

namespace SprigCompiler.Parse

variable {source : Source} {entry : Option Location} {past ahead : List Token} {head : Token}
  {parser : Parser}

/-- What an expression is by descent, where `expression` reads its right sides: a block, or an
operand with what the token behind it makes of it.  A token that is no operator stays ahead. -/
def descentBy (expression : Token → Parse Node) (head : Token) : Parse Node :=
  if head.kind = .openBrace then block head
  else do
    let left ← operand head
    match ← takeOperator with
    | none => return left
    | some sign =>
        match MathOperator.ofOperator? sign with
        | some operator =>
            let right ← expression (← next)
            build (.math operator left right (left.location.through right.location))
        | none => binding sign left expression

private theorem between_or_ended (parser : Parser) :
    (∃ past ahead, parser = .between parser.source parser.entryPoint past ahead) ∨
      parser.cursor.peek = none := by
  by_cases within : parser.cursor.consumed ≤ parser.cursor.tokens.size
  · exact .inl ⟨_, _, eq_between within⟩
  · exact .inr (Array.getElem?_eq_none (Nat.le_of_not_le within))

private theorem ahead_of_ended (ended : parser.cursor.peek = none) : parser.cursor.ahead = 0 :=
  Nat.sub_eq_zero_of_le (Array.getElem?_eq_none_iff.mp ended)

private theorem advance_of_ended (ended : parser.cursor.peek = none) :
    advance parser = (.ok none, parser) := by
  unfold advance Cursor.advance
  rw [ended]

private theorem takeOperator_of_ended (ended : parser.cursor.peek = none) :
    takeOperator parser = (.ok none, parser) := by
  have takes : takeIf (·.kind.operator?.isSome) parser = (.ok none, parser) :=
    bind_of_ok (advance_of_ended ended)
  exact bind_of_ok takes

private theorem literal_stays (token : Token) (parser : Parser) :
    ∃ outcome, literal token parser = (outcome, parser) := by
  cases kind : token.kind with
  | number =>
      cases numeral : Decimal.read? token.text.toList with
      | some value =>
          exact ⟨.ok (.number value token.location), by simp only [literal, kind, numeral]; rfl⟩
      | none => exact ⟨.error (.unexpected token), by simp only [literal, kind, numeral]; rfl⟩
  | string => exact ⟨.ok (.string token.text token.location), by simp only [literal, kind]; rfl⟩
  | boolean =>
      exact ⟨.ok (.boolean (token.text == "true") token.location), by
        simp only [literal, kind]
        rfl⟩
  | _ => exact ⟨.error (.unexpected token), by simp only [literal, kind]; rfl⟩

/-- Behind the last token a name has no arguments. -/
theorem operand_of_ended (ended : parser.cursor.peek = none) (head : Token) :
    ∃ outcome, operand head parser = (outcome, parser) := by
  by_cases isName : head.kind = .identifier
  · have noKind : peekKind parser = (.ok none, parser) := by
      unfold peekKind
      rw [ended]
      rfl
    have nothing : Parse.ahead parser = (.ok 0, parser) := by
      unfold Parse.ahead
      rw [ahead_of_ended ended]
    refine ⟨.ok (.identifier head.text head.location), ?_⟩
    rw [operand_eq_named isName]
    unfold named
    rw [bind_of_ok (show cursor parser = (.ok parser.cursor, parser) from rfl), bind_of_ok noKind]
    exact bind_of_ok nothing
  · rw [operand_eq_literal isName]
    exact literal_stays head parser

private theorem operand_bind_of_ended {rest : Node → Parse Node} (ended : parser.cursor.peek = none)
    (stops : ∀ left, rest left parser = (.ok left, parser)) (head : Token) :
    (operand head >>= rest) parser = operand head parser := by
  obtain ⟨outcome, ran⟩ := operand_of_ended ended head
  cases outcome with
  | ok left => rw [bind_of_ok ran, ran, stops]
  | error error => rw [bind_of_error ran, ran]

private theorem descentBy_of_ended (ended : parser.cursor.peek = none)
    (expression : Token → Parse Node) (head : Token) :
    descentBy expression head parser =
      if head.kind = .openBrace then block head parser else operand head parser := by
  unfold descentBy
  split
  · rfl
  · refine operand_bind_of_ended ended (fun left => ?_) head
    exact bind_of_ok (takeOperator_of_ended ended)

private theorem expression_of_ended (ended : parser.cursor.peek = none) (head : Token) :
    expression head parser =
      if head.kind = .openBrace then block head parser else operand head parser := by
  have fuel : headFuel parser = (.ok 1, parser) := by
    unfold headFuel Parse.ahead
    change (Except.ok (2 * parser.cursor.ahead + 1), parser) = _
    rw [ahead_of_ended ended]
  unfold expression
  rw [bind_of_ok fuel, expressionWith_succ]
  split
  · unfold block
    rw [bind_of_ok fuel]
    refine bind_of_eq ?_ _
    rw [blockStatementsWith, blockStatementsWith, bind_of_ok (advance_of_ended ended)]
  · exact operand_bind_of_ended ended (fun _ => rfl) head

/-! ### The recursion holds -/

private theorem expression_between :
    expression head (.between source entry past ahead) =
      expressionWith (2 * ahead.length + 1) head (.between source entry past ahead) := by
  unfold expression
  rw [headFuel_bind, bind_of_ok ahead_between]

private theorem block_between :
    block head (.between source entry past ahead) =
      blockOf head (blockStatementsWith (2 * ahead.length) head.position)
        (.between source entry past ahead) := by
  unfold block
  rw [headFuel_bind, bind_of_ok ahead_between]
  refine bind_of_eq ?_ _
  exact (covers _).block source entry past ahead head.position (Nat.le_refl _)

/-- With fuel enough, the right side of an operator is an expression. -/
theorem next_expressionWith_eq {fuel : Nat} (enough : 2 * ahead.length ≤ fuel + 1) :
    (next >>= expressionWith fuel) (.between source entry past ahead) =
      (next >>= expression) (.between source entry past ahead) := by
  refine bind_congr_of_ok fun head behind ran => ?_
  obtain ⟨rest, rfl, rfl⟩ := next_eq_ok ran
  rw [List.length_cons] at enough
  rw [expression_between]
  exact @eq_of_covered _ (fun fuel => expressionWith fuel head) _ _ _
    (fun fuel => (covers fuel).expression source entry (head :: past) rest head) (by omega)

/-- What is bound to a left side depends on how its right side is read from here. -/
theorem binding_congr {reading other : Token → Parse Node} (sign : Operator) (left : Node)
    (sameRight : (next >>= reading) parser = (next >>= other) parser) :
    binding sign left reading parser = binding sign left other parser := by
  unfold binding
  split
  · rfl
  · rw [← bind_assoc_eq, ← bind_assoc_eq]
    exact bind_of_eq sameRight _

/-- The loop does what the recursion says about the token behind an operand. -/
theorem tailWith_eq {fuel : Nat} (left : Node) (enough : 2 * ahead.length ≤ fuel + 2) :
    tailWith (fuel + 1) left (.between source entry past ahead) =
      (do
        match ← takeOperator with
        | none => return left
        | some sign =>
            match MathOperator.ofOperator? sign with
            | some operator =>
                let right ← expression (← next)
                build (.math operator left right (left.location.through right.location))
            | none => binding sign left expression) (.between source entry past ahead) := by
  rw [tailWith_succ]
  refine bind_congr_of_ok fun found behind ran => ?_
  cases found with
  | none => rfl
  | some sign =>
      obtain ⟨token, rest, rfl, _, rfl⟩ := takeOperator_eq_some ran
      rw [List.length_cons] at enough
      cases arithmetic : MathOperator.ofOperator? sign with
      | none =>
          simp only [arithmetic]
          exact binding_congr sign left (next_expressionWith_eq (by omega))
      | some operator =>
          simp only [arithmetic]
          rw [← bind_assoc_eq, ← bind_assoc_eq]
          exact bind_of_eq (next_expressionWith_eq (by omega)) _

private theorem expression_eq : expression = descentBy expression := by
  funext head parser
  rcases between_or_ended parser with ⟨past, ahead, isBetween⟩ | ended
  · rw [isBetween, expression_between, expressionWith_succ]
    unfold descentBy
    split
    · exact block_between.symm
    · refine bind_congr_of_ok fun left behind ran => ?_
      obtain ⟨taken, rest, rfl, rfl⟩ := (Parallel.operand head).behind ran
      rw [List.length_append]
      cases enough : 2 * (taken.length + rest.length) with
      | zero =>
          -- The loop is out of fuel where no token is left that it could go on with.
          obtain rfl : rest = [] := List.length_eq_zero_iff.mp (by omega)
          rw [bind_of_ok (takeOperator_of_ended peek_between_nil)]
          rfl
      | succ fuel => exact tailWith_eq left (by omega)
  · rw [expression_of_ended ended, descentBy_of_ended ended]

/-! ### Nothing else solves the recursion -/

/-- Two solutions agree as long as they agree behind the tokens taken first. -/
theorem descentBy_congr {reading other : Token → Parse Node}
    (same : ∀ head past rest, rest.length < ahead.length →
      reading head (.between source entry past rest) =
        other head (.between source entry past rest)) :
    descentBy reading head (.between source entry past ahead) =
      descentBy other head (.between source entry past ahead) := by
  have sameRight : ∀ (past rest : List Token), rest.length < ahead.length →
      (next >>= reading) (.between source entry past rest) =
        (next >>= other) (.between source entry past rest) := by
    intro past rest fewer
    refine bind_congr_of_ok fun head behind ran => ?_
    obtain ⟨rest, rfl, rfl⟩ := next_eq_ok ran
    rw [List.length_cons] at fewer
    exact same head _ rest (by omega)
  unfold descentBy
  split
  · rfl
  · refine bind_congr_of_ok fun left behind ran => ?_
    obtain ⟨taken, rest, rfl, rfl⟩ := (Parallel.operand head).behind ran
    refine bind_congr_of_ok fun found behind ran => ?_
    cases found with
    | none => rfl
    | some sign =>
        obtain ⟨token, rest, rfl, _, rfl⟩ := takeOperator_eq_some ran
        have fewer : rest.length < (taken ++ token :: rest).length := by
          rw [List.length_append, List.length_cons]
          omega
        cases arithmetic : MathOperator.ofOperator? sign with
        | none =>
            simp only [arithmetic]
            exact binding_congr sign left (sameRight _ rest fewer)
        | some operator =>
            simp only [arithmetic]
            rw [← bind_assoc_eq, ← bind_assoc_eq]
            exact bind_of_eq (sameRight _ rest fewer) _

private theorem reading_between {reading : Token → Parse Node}
    (descends : reading = descentBy reading) (head : Token) (past ahead : List Token) :
    reading head (.between source entry past ahead) =
      expression head (.between source entry past ahead) := by
  -- A right side has fewer tokens ahead than its left side: the operator and its own head are gone.
  induction length : ahead.length using Nat.strongRecOn generalizing head past ahead with
  | _ bound inductionHypothesis =>
      subst length
      rw [descends, expression_eq]
      refine descentBy_congr fun head past rest fewer => ?_
      exact inductionHypothesis rest.length fewer head past rest rfl

/-- Reading expressions in a loop is the same as reading them by descent: the expressions of the
parser solve the recursion, from every place and with every outcome, and nothing else does. -/
theorem descends_iff_expression (reading : Token → Parse Node) :
    reading = descentBy reading ↔ reading = expression := by
  constructor
  · intro descends
    funext head parser
    rcases between_or_ended parser with ⟨past, ahead, isBetween⟩ | ended
    · rw [isBetween]
      exact reading_between descends head past ahead
    · rw [descends, expression_eq, descentBy_of_ended ended, descentBy_of_ended ended]
  · rintro rfl
    exact expression_eq

end SprigCompiler.Parse
