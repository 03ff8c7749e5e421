import SprigCompiler.Proofs.Grammar.Expressions
import SprigCompiler.Proofs.Parser.Chains

/-!
Soundness: what the parser reads is derived by the grammar.

Expressions, their tails and blocks call one another, so their soundness is one statement about an
amount of fuel, and the fuel carries the induction.
-/

namespace SprigCompiler.Parse

open Grammar (Term Expression Sequence Inner Block Statement)

variable {source : Source} {entry : Option Location} {past ahead rest : List Token}
  {token head : Token} {behind : Parser} {node : Node} {fuel : Nat}

/-- Whether everything that a step reads from a first token on is an expression. -/
def SoundExpression (step : Token → Parse Node) : Prop :=
  ∀ {source : Source} {entry : Option Location} {past ahead : List Token} {head : Token}
    {node : Node} {behind : Parser},
    step head (.between source entry (head :: past) ahead) = (.ok node, behind) →
      Took source entry (head :: past) ahead behind fun lexemes =>
        Expression (innerForm (governing past)) (formAfter past) (head.lexeme :: lexemes) node

def SoundTail (step : Node → Parse Node) : Prop :=
  ∀ {source : Source} {entry : Option Location} {past ahead : List Token} {left node : Node}
    {behind : Parser} {outer : ApplicationForm} {before : List Lexeme}, Term outer before left →
    step left (.between source entry past ahead) = (.ok node, behind) →
      Took source entry past ahead behind fun lexemes =>
        Expression (innerForm (governing past)) outer (before ++ lexemes) node

/-- Whether everything that a step reads behind an opening brace is a row of statements and a
closing brace. -/
def SoundBlock (step : Position → Parse (List Node × Location)) : Prop :=
  ∀ {source : Source} {entry : Option Location} {past ahead : List Token} {opening : Position}
    {nodes : List Node} {closing : Location} {behind : Parser},
    step opening (.between source entry past ahead) = (.ok (nodes, closing), behind) →
      Took source entry past ahead behind fun lexemes =>
        ∃ body stop, lexemes = body ++ [⟨.closeBrace, stop⟩] ∧ Sequence Inner body nodes

def SoundInner (step : Token → Parse Node) : Prop :=
  ∀ {source : Source} {entry : Option Location} {past ahead : List Token} {head : Token}
    {node : Node} {behind : Parser} {word : Keyword}, head.kind = .keyword word →
    word.startsInner = true →
    step head (.between source entry (head :: past) ahead) = (.ok node, behind) →
      Took source entry (head :: past) ahead behind fun lexemes =>
        Inner (head.lexeme :: lexemes) node

private theorem blockOf_sound {step : Position → Parse (List Node × Location)}
    (blocks : SoundBlock step) (isBrace : head.kind = .openBrace)
    (ran : blockOf head (step head.position) (.between source entry (head :: past) ahead) =
      (.ok node, behind)) :
    Took source entry (head :: past) ahead behind fun lexemes =>
      Block (head.lexeme :: lexemes) node := by
  unfold blockOf at ran
  obtain ⟨⟨nodes, closing⟩, middle, read, ran⟩ := bind_eq_ok ran
  obtain ⟨_, rfl, rfl⟩ := build_eq_ok ran
  obtain ⟨taken, rest, rfl, rfl, body, stop, split, items⟩ := blocks read
  refine ⟨taken, rest, rfl, rfl, ?_⟩
  rw [lexeme_eq isBrace, split]
  exact .braces _ stop _ items

private theorem expressionWith_sound (blocks : SoundBlock (blockStatementsWith fuel))
    (tails : SoundTail (tailWith fuel)) : SoundExpression (expressionWith (fuel + 1)) := by
  intro source entry past ahead head node behind ran
  rw [expressionWith_succ] at ran
  by_cases opens : head.kind = .openBrace
  · rw [if_pos opens] at ran
    obtain ⟨taken, rest, rfl, rfl, block⟩ := blockOf_sound blocks opens ran
    exact ⟨taken, rest, rfl, rfl, .block block⟩
  · rw [if_neg opens] at ran
    obtain ⟨left, middle, read, ran⟩ := bind_eq_ok ran
    obtain ⟨taken, ahead, rfl, rfl, term⟩ := operand_sound read
    obtain ⟨more, rest, rfl, rfl, expression⟩ := tails term ran
    refine ⟨taken ++ more, rest, by simp, by simp, ?_⟩
    rw [governing_taken term.noGoverning past] at expression
    rw [List.map_append]
    exact expression

private theorem binding_sound {sign : Operator} {left : Node} {outer : ApplicationForm}
    {before : List Lexeme} (expressions : SoundExpression (expressionWith fuel))
    (term : Term outer before left) (isOperator : token.kind = .operator sign)
    (noArithmetic : MathOperator.ofOperator? sign = none)
    (ran : binding sign left (expressionWith fuel) (.between source entry (token :: past) ahead) =
      (.ok node, behind)) :
    Took source entry (token :: past) ahead behind fun lexemes =>
      Expression (innerForm (governing past)) outer (before ++ token.lexeme :: lexemes) node := by
  have form : formAfter (token :: past) = innerForm (governing past) :=
    formAfter_operator isOperator
  have governed : governing (token :: past) = governing past := governing_operator isOperator
  unfold binding at ran
  by_cases isUnion : sign = .union
  · rw [if_pos isUnion] at ran
    obtain ⟨taken, rest, rfl, rfl, members, place, derivation, rfl, sound⟩ :=
      union_sound (by rw [form, governed]) ran
    refine ⟨taken, rest, rfl, rfl, ?_⟩
    rw [governed] at derivation
    rw [lexeme_eq isOperator, isUnion]
    exact .union _ place term derivation sound
  · rw [if_neg isUnion] at ran
    have isAssign : sign = .assign := by
      cases sign <;> first | rfl | contradiction
    obtain ⟨start, middle, stepped, ran⟩ := bind_eq_ok ran
    obtain ⟨ahead, rfl, rfl⟩ := next_eq_ok stepped
    obtain ⟨right, middle, read, ran⟩ := bind_eq_ok ran
    obtain ⟨sound, rfl, rfl⟩ := build_eq_ok ran
    obtain ⟨taken, rest, rfl, rfl, expression⟩ := expressions read
    refine ⟨start :: taken, rest, by simp, by simp, ?_⟩
    rw [form, governed] at expression
    rw [lexeme_eq isOperator, isAssign]
    exact .assignment _ _ term expression sound

private theorem tailWith_sound (expressions : SoundExpression (expressionWith fuel))
    (rights : SoundExpression (expressionWith (fuel + 1))) : SoundTail (tailWith (fuel + 1)) := by
  intro source entry past ahead left node behind outer before term ran
  rw [tailWith_succ] at ran
  obtain ⟨found, middle, stepped, ran⟩ := bind_eq_ok ran
  cases found with
  | none =>
      have same := takeOperator_eq_none stepped
      subst same
      cases ran
      exact .nothing (by rw [List.append_nil]; exact .term term)
  | some sign =>
      obtain ⟨token, ahead, rfl, isOperator, rfl⟩ := takeOperator_eq_some stepped
      cases arithmetic : MathOperator.ofOperator? sign with
      | none =>
          simp only [arithmetic] at ran
          obtain ⟨taken, rest, rfl, rfl, expression⟩ :=
            binding_sound expressions term isOperator arithmetic ran
          exact ⟨token :: taken, rest, by simp, by simp, expression⟩
      | some operator =>
          simp only [arithmetic] at ran
          obtain ⟨start, middle, stepped, ran⟩ := bind_eq_ok ran
          obtain ⟨ahead, rfl, rfl⟩ := next_eq_ok stepped
          obtain ⟨right, middle, read, ran⟩ := bind_eq_ok ran
          obtain ⟨sound, rfl, rfl⟩ := build_eq_ok ran
          obtain ⟨taken, rest, rfl, rfl, expression⟩ := rights read
          refine ⟨token :: start :: taken, rest, by simp, by simp, ?_⟩
          rw [formAfter_operator isOperator, governing_operator isOperator] at expression
          simp only [List.map_cons, lexeme_eq isOperator]
          exact .math _ _ term arithmetic expression sound

theorem statementWith_of_keyword {word : Keyword} (isKeyword : head.kind = .keyword word)
    (noMain : word ≠ .mainWord) :
    statementWith (fuel + 1) head =
      statementOf (formOf word) head (do expressionWith fuel (← next)) := by
  unfold statementWith
  rw [isKeyword]
  cases word <;> first | rfl | contradiction

theorem statementOf_sound {word : Keyword} {form : StatementForm}
    (expressions : SoundExpression (expressionWith fuel)) (isKeyword : head.kind = .keyword word)
    (ran : statementOf form head (do expressionWith fuel (← next))
      (.between source entry (head :: past) ahead) = (.ok node, behind)) :
    Took source entry (head :: past) ahead behind fun lexemes =>
      ∃ value place, node = .statement form value place ∧ node.firstFault? = none ∧
        Expression (innerForm (some (.keyword word))) (headForm word) lexemes value := by
  unfold statementOf at ran
  obtain ⟨value, middle, read, ran⟩ := bind_eq_ok ran
  obtain ⟨sound, rfl, rfl⟩ := build_eq_ok ran
  obtain ⟨start, middle, stepped, read⟩ := bind_eq_ok read
  obtain ⟨ahead, rfl, rfl⟩ := next_eq_ok stepped
  obtain ⟨taken, rest, rfl, rfl, expression⟩ := expressions read
  rw [governing_keyword isKeyword, formAfter_keyword isKeyword] at expression
  exact ⟨start :: taken, rest, by simp, by simp, value, _, rfl, sound, expression⟩

private theorem inner_sound (expressions : SoundExpression (expressionWith fuel)) :
    SoundInner (statementWith (fuel + 1)) := by
  intro source entry past ahead head node behind word isKeyword isInner ran
  have noMain : word ≠ .mainWord := by
    rintro rfl
    cases isInner
  rw [statementWith_of_keyword isKeyword noMain] at ran
  obtain ⟨taken, rest, rfl, rfl, value, place, rfl, sound, expression⟩ :=
    statementOf_sound expressions isKeyword ran
  refine ⟨taken, rest, rfl, rfl, ?_⟩
  rw [lexeme_eq isKeyword]
  cases word with
  | typeWord => exact .type (Grammar.typeDeclaration_of_expression _ expression sound)
  | letWord => exact .binding (Grammar.letDeclaration_of_expression _ expression sound)
  | returnWord => exact .result (Grammar.return_of_expression _ expression sound)
  | mainWord => cases isInner
  | funWord => cases isInner
  | funcWord => cases isInner

theorem blockStatementsWith_nil (opening : Position) :
    blockStatementsWith (fuel + 1) opening (.between source entry past []) =
      (.error (.incomplete opening), .between source entry past []) := by
  unfold blockStatementsWith
  exact bind_of_ok advance_nil

theorem blockStatementsWith_close (opening : Position) (closes : token.kind = .closeBrace) :
    blockStatementsWith (fuel + 1) opening (.between source entry past (token :: ahead)) =
      (.ok ([], token.location), .between source entry (token :: past) ahead) := by
  unfold blockStatementsWith
  apply (bind_of_ok advance_cons).trans
  simp only [closes]
  rfl

theorem blockStatementsWith_keyword {word : Keyword} (opening : Position)
    (isKeyword : token.kind = .keyword word) (isInner : word.startsInner = true) :
    blockStatementsWith (fuel + 1) opening (.between source entry past (token :: ahead)) =
      (do
        let first ← (statementWith fuel token).mapError (.insideBlock opening)
        let (rest, closing) ← blockStatementsWith fuel opening
        return (first :: rest, closing) : Parse (List Node × Location))
        (.between source entry (token :: past) ahead) := by
  rw [blockStatementsWith]
  apply (bind_of_ok advance_cons).trans
  simp only [isKeyword]
  cases word <;> first | rfl | cases isInner

theorem blockStatementsWith_other (opening : Position) (noClose : token.kind ≠ .closeBrace)
    (noKeyword : ∀ word, token.kind = .keyword word → word.startsInner = false) :
    blockStatementsWith (fuel + 1) opening (.between source entry past (token :: ahead)) =
      (.error (.incomplete opening), .between source entry (token :: past) ahead) := by
  unfold blockStatementsWith
  apply (bind_of_ok advance_cons).trans
  cases kind : token.kind with
  | closeBrace => contradiction
  | keyword word =>
      have notInner := noKeyword word kind
      simp only [kind]
      cases word <;> first | rfl | cases notInner
  | _ =>
      simp only [kind]
      rfl

private theorem blockStatementsWith_sound (inners : SoundInner (statementWith fuel))
    (blocks : SoundBlock (blockStatementsWith fuel)) :
    SoundBlock (blockStatementsWith (fuel + 1)) := by
  intro source entry past ahead opening nodes closing behind ran
  cases ahead with
  | nil =>
      rw [blockStatementsWith_nil] at ran
      cases ran
  | cons token ahead =>
      by_cases closes : token.kind = .closeBrace
      · rw [blockStatementsWith_close opening closes] at ran
        cases ran
        refine ⟨[token], ahead, rfl, rfl, [], token.text, ?_, .nil⟩
        rw [List.map_singleton, lexeme_eq closes]
        rfl
      · by_cases starts : ∃ word, token.kind = .keyword word ∧ word.startsInner = true
        · obtain ⟨word, isKeyword, isInner⟩ := starts
          rw [blockStatementsWith_keyword opening isKeyword isInner] at ran
          obtain ⟨first, middle, read, ran⟩ := bind_eq_ok ran
          obtain ⟨taken, ahead, rfl, rfl, inner⟩ :=
            inners isKeyword isInner (mapError_eq_ok.mp read)
          obtain ⟨⟨others, last⟩, middle, readRest, ran⟩ := bind_eq_ok ran
          cases ran
          obtain ⟨more, rest, rfl, rfl, body, stop, split, items⟩ := blocks readRest
          refine ⟨token :: (taken ++ more), rest, by simp, by simp,
            token.lexeme :: taken.map Token.lexeme ++ body, stop, ?_, .cons inner items⟩
          simp only [List.map_cons, List.map_append, split, List.cons_append, List.append_assoc]
        · have noKeyword : ∀ word, token.kind = .keyword word → word.startsInner = false := by
            intro word isKeyword
            cases isInner : word.startsInner with
            | false => rfl
            | true => exact absurd ⟨word, isKeyword, isInner⟩ starts
          rw [blockStatementsWith_other opening closes noKeyword] at ran
          cases ran

structure Sound (fuel : Nat) : Prop where
  inner : SoundInner (statementWith fuel)
  block : SoundBlock (blockStatementsWith fuel)
  expression : SoundExpression (expressionWith fuel)
  tail : SoundTail (tailWith fuel)

private theorem sound_zero : Sound 0 where
  inner := by
    intro source entry past ahead head node behind word isKeyword isInner ran
    rw [statementWith] at ran
    cases ran
  block := by
    intro source entry past ahead opening nodes closing behind ran
    rw [blockStatementsWith] at ran
    cases ran
  expression := by
    intro source entry past ahead head node behind ran
    rw [expressionWith] at ran
    cases ran
  tail := by
    intro source entry past ahead left node behind outer before term ran
    cases ran
    exact .nothing (by rw [List.append_nil]; exact .term term)

theorem sound (fuel : Nat) : Sound fuel := by
  induction fuel with
  | zero => exact sound_zero
  | succ fuel inductionHypothesis =>
      have expression : SoundExpression (expressionWith (fuel + 1)) :=
        expressionWith_sound inductionHypothesis.block inductionHypothesis.tail
      exact {
        inner := inner_sound inductionHypothesis.expression
        block := blockStatementsWith_sound inductionHypothesis.inner inductionHypothesis.block
        expression := expression
        tail := tailWith_sound inductionHypothesis.expression expression }

end SprigCompiler.Parse
