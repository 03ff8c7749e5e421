import SprigCompiler.Proofs.Parser.Unions

/-!
Chains as a descent.

The parser collects a chain in a list and groups it from its right end.  That is the same as reading
the right side of each operator before building its node, which is how the grammar describes a
chain.
-/

namespace SprigCompiler.Parse

variable {source : Source} {entry : Option Location} {past ahead : List Token} {token : Token}
  {behind : Parser} {sign : Operator}

theorem takeOperator_of_operator (isOperator : token.kind = .operator sign) :
    takeOperator (.between source entry past (token :: ahead)) =
      (.ok (some sign), .between source entry (token :: past) ahead) := by
  have takes : token.kind.operator?.isSome = true := by rw [isOperator]; rfl
  have sign? : (some token).bind (·.kind.operator?) = some sign := by
    rw [Option.bind_some, isOperator]
    rfl
  unfold takeOperator
  apply (bind_of_ok (takeIf_of_true takes)).trans
  rw [sign?]
  rfl

theorem takeOperator_of_head
    (others : ∀ first ∈ ahead.head?, first.kind.operator?.isSome = false) :
    takeOperator (.between source entry past ahead) =
      (.ok none, .between source entry past ahead) :=
  bind_of_ok (takeIf_of_head others)

theorem operator_of_isSome (isOperator : token.kind.operator?.isSome = true) :
    ∃ sign, token.kind = .operator sign := by
  cases kind : token.kind with
  | operator sign => exact ⟨sign, rfl⟩
  | _ => rw [kind] at isOperator; cases isOperator

theorem takeOperator_eq_some
    (ran : takeOperator (.between source entry past ahead) = (.ok (some sign), behind)) :
    ∃ operator rest, ahead = operator :: rest ∧ operator.kind = .operator sign ∧
      behind = .between source entry (operator :: past) rest := by
  unfold takeOperator at ran
  obtain ⟨found, middle, stepped, ran⟩ := bind_eq_ok ran
  cases found with
  | none => cases ran
  | some token =>
      obtain ⟨isOperator, rest, rfl, rfl⟩ := takeIf_eq_some stepped
      obtain ⟨other, kind⟩ := operator_of_isSome isOperator
      rw [Option.bind_some, kind] at ran
      cases ran
      exact ⟨token, rest, rfl, kind, rfl⟩

theorem takeOperator_eq_none
    (ran : takeOperator (.between source entry past ahead) = (.ok none, behind)) :
    behind = .between source entry past ahead := by
  unfold takeOperator at ran
  obtain ⟨found, middle, stepped, ran⟩ := bind_eq_ok ran
  cases found with
  | none =>
      obtain ⟨rfl, _⟩ := takeIf_eq_none stepped
      cases ran
      rfl
  | some token =>
      obtain ⟨isOperator, rest, rfl, rfl⟩ := takeIf_eq_some stepped
      obtain ⟨other, kind⟩ := operator_of_isSome isOperator
      rw [Option.bind_some, kind] at ran
      cases ran

/-- Goes on with an operand: an arithmetic operator takes the rest of the chain as its right side,
`=` and `|` bind the operand, and anything else stays ahead. -/
def tailWith : Nat → Node → Parse Node
  | 0, left => return left
  | fuel + 1, left => do
      match ← takeOperator with
      | none => return left
      | some sign =>
          match MathOperator.ofOperator? sign with
          | some operator =>
              let head ← next
              (if head.kind = .openBrace then
                  blockOf head (blockStatementsWith fuel head.position)
                else operand head >>= tailWith fuel) >>= fun right =>
                  build (.math operator left right (left.location.through right.location))
          | none => binding sign left (expressionWith fuel)

private theorem chainWith_group (fuel : Nat) (first : Node) (operator : MathOperator) (last : Node)
    (earlier : List (MathOperator × Node)) :
    (chainWith fuel first ((operator, last) :: earlier) >>=
        fun chain => groupChain chain.1 chain.2) =
      tailWith fuel last >>= fun right => group first operator right earlier := by
  induction fuel generalizing operator last earlier with
  | zero => rfl
  | succ fuel inductionHypothesis =>
      unfold chainWith tailWith
      rw [bind_assoc_eq, bind_assoc_eq]
      refine bind_congr_eq _ fun found => ?_
      cases found with
      | none => rfl
      | some sign =>
          cases arithmetic : MathOperator.ofOperator? sign with
          | none =>
              simp only [arithmetic]
              rw [bind_assoc_eq]
              exact bind_congr_eq _ fun bound => rfl
          | some next =>
              simp only [arithmetic]
              rw [bind_assoc_eq, bind_assoc_eq]
              refine bind_congr_eq _ fun head => ?_
              by_cases opens : head.kind = .openBrace
              · simp only [if_pos opens]
                rw [bind_assoc_eq, bind_assoc_eq]
                exact bind_congr_eq _ fun right => rfl
              · simp only [if_neg opens]
                rw [bind_assoc_eq, bind_assoc_eq, bind_assoc_eq]
                refine bind_congr_eq _ fun right => ?_
                exact inductionHypothesis next right ((operator, last) :: earlier)

private theorem chainWith_groupChain (fuel : Nat) (first : Node) :
    (chainWith fuel first [] >>= fun chain => groupChain chain.1 chain.2) =
      tailWith fuel first := by
  cases fuel with
  | zero => rfl
  | succ fuel =>
      unfold chainWith tailWith
      rw [bind_assoc_eq]
      refine bind_congr_eq _ fun found => ?_
      cases found with
      | none => rfl
      | some sign =>
          cases arithmetic : MathOperator.ofOperator? sign with
          | none =>
              simp only [arithmetic]
              rw [bind_assoc_eq]
              exact bind_pure_eq _
          | some next =>
              simp only [arithmetic]
              rw [bind_assoc_eq]
              refine bind_congr_eq _ fun head => ?_
              by_cases opens : head.kind = .openBrace
              · simp only [if_pos opens]
                rw [bind_assoc_eq]
                exact bind_congr_eq _ fun right => rfl
              · simp only [if_neg opens]
                rw [bind_assoc_eq, bind_assoc_eq]
                exact bind_congr_eq _ fun right => chainWith_group fuel first next right []

theorem expressionWith_succ (fuel : Nat) (head : Token) :
    expressionWith (fuel + 1) head =
      if head.kind = .openBrace then blockOf head (blockStatementsWith fuel head.position)
      else operand head >>= tailWith fuel := by
  unfold expressionWith
  split
  · rfl
  · exact bind_congr_eq _ fun first => chainWith_groupChain fuel first

theorem tailWith_succ (fuel : Nat) (left : Node) :
    tailWith (fuel + 1) left = (do
      match ← takeOperator with
      | none => return left
      | some sign =>
          match MathOperator.ofOperator? sign with
          | some operator =>
              let right ← expressionWith (fuel + 1) (← next)
              build (.math operator left right (left.location.through right.location))
          | none => binding sign left (expressionWith fuel)) := by
  simp only [expressionWith_succ]
  rfl

end SprigCompiler.Parse
