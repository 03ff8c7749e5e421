import SprigCompiler.Proofs.Parser.Soundness

/-!
Completeness: what the grammar derives is read.

Where the tokens ahead begin with a derivation, and nothing behind it can go on with it, a step with
enough fuel takes exactly the derivation and gives its tree.
-/

namespace SprigCompiler.Parse

open Grammar (Term Named Operand Chain Value Members TypeBody Declaration Sequence Inner Block
  FunctionBody)

variable {source : Source} {entry : Option Location} {past ahead rest taken : List Token}
  {token head : Token} {node tree : Node} {fuel : Nat} {lexemes : List Lexeme}

private theorem split_append_cons {first second : List Lexeme} {sign : Lexeme}
    (nonempty : first ≠ []) (same : (head :: taken).map Token.lexeme = first ++ sign :: second) :
    ∃ front token after, taken = front ++ token :: after ∧
      (head :: front).map Token.lexeme = first ∧ token.lexeme = sign ∧
      after.map Token.lexeme = second := by
  obtain ⟨front, follow, split, frontSame, followSame⟩ := List.map_eq_append_iff.mp same
  obtain ⟨token, after, rfl, isSign, afterSame⟩ := List.map_eq_cons_iff.mp followSame
  cases front with
  | nil => exact absurd frontSame.symm nonempty
  | cons start front =>
      rw [List.cons_append] at split
      obtain ⟨rfl, rfl⟩ := List.cons.inj split
      exact ⟨front, token, after, rfl, frontSame, isSign, afterSame⟩

private theorem head_of_term {form : ApplicationForm} (derivation : Term form lexemes tree)
    (same : (head :: taken).map Token.lexeme = lexemes) : head.kind ≠ .openBrace := by
  intro isBrace
  have inside := derivation.inArguments head.lexeme (by rw [← same]; exact List.mem_cons_self)
  have kinds : head.lexeme.kind = .openBrace := isBrace
  rw [kinds] at inside
  cases inside

/-- An expression that starts with a term goes on as the tail of the term. -/
theorem expressionWith_term (source : Source) (entry : Option Location) (rest : List Token)
    (fuel : Nat) (derivation : Term (formAfter past) lexemes tree)
    (same : (head :: taken).map Token.lexeme = lexemes) (stops : Stops rest) :
    ∃ node, node.Alike tree ∧
      expressionWith (fuel + 1) head (.between source entry (head :: past) (taken ++ rest)) =
        tailWith fuel node (.between source entry (taken.reverse ++ head :: past) rest) := by
  obtain ⟨node, read, alike⟩ := operand_complete source entry past rest derivation same stops
  refine ⟨node, alike, ?_⟩
  rw [expressionWith_succ, if_neg (head_of_term derivation same)]
  exact bind_of_ok read

/-- An operator behind a term does not change what the names behind it mean. -/
theorem forms_behind_term {outer inner : ApplicationForm} {sign : Operator}
    (derivation : Term outer lexemes tree) (same : (head :: taken).map Token.lexeme = lexemes)
    (isOperator : token.kind = .operator sign) (isInner : innerForm (governing past) = inner) :
    formAfter (token :: (taken.reverse ++ head :: past)) = inner ∧
      innerForm (governing (token :: (taken.reverse ++ head :: past))) = inner := by
  have plain : ∀ lexeme ∈ (head :: taken).map Token.lexeme, lexeme.kind.governs = false := by
    rw [same]
    exact derivation.noGoverning
  have forms := forms_behind plain isOperator isInner
  rwa [List.reverse_cons, List.append_assoc] at forms

theorem tailWith_ends (ends : Ends rest) (left : Node) :
    tailWith fuel left (.between source entry past rest) =
      (.ok left, .between source entry past rest) := by
  cases fuel with
  | zero => rfl
  | succ fuel =>
      unfold tailWith
      exact bind_of_ok (takeOperator_of_head ends.noOperator)

theorem tailWith_math {sign : Operator} {operator : MathOperator}
    (isOperator : token.kind = .operator sign)
    (arithmetic : MathOperator.ofOperator? sign = some operator) (left : Node) :
    tailWith (fuel + 1) left (.between source entry past (token :: ahead)) =
      (do
        let right ← expressionWith (fuel + 1) (← next)
        build (.math operator left right (left.location.through right.location)) : Parse Node)
        (.between source entry (token :: past) ahead) := by
  rw [tailWith_succ]
  apply (bind_of_ok (takeOperator_of_operator isOperator)).trans
  simp only [arithmetic]

theorem tailWith_binding {sign : Operator} (isOperator : token.kind = .operator sign)
    (noArithmetic : MathOperator.ofOperator? sign = none) (left : Node) :
    tailWith (fuel + 1) left (.between source entry past (token :: ahead)) =
      binding sign left (expressionWith fuel) (.between source entry (token :: past) ahead) := by
  rw [tailWith_succ]
  apply (bind_of_ok (takeOperator_of_operator isOperator)).trans
  simp only [noArithmetic]

/-- Whether an expression is read wherever its derivation is ahead, its names have a form, and
nothing behind it goes on. -/
def CompleteExpression (form : ApplicationForm) (Derives : List Lexeme → Node → Prop) : Prop :=
  ∀ (source : Source) (entry : Option Location) {past : List Token} (rest : List Token)
    {head : Token} {taken : List Token} {tree : Node} {fuel : Nat} {lexemes : List Lexeme},
    Derives lexemes tree → (head :: taken).map Token.lexeme = lexemes →
    formAfter past = form → innerForm (governing past) = form → Ends rest →
    2 * taken.length < fuel →
      ∃ node, expressionWith fuel head (.between source entry (head :: past) (taken ++ rest)) =
          (.ok node, .between source entry (taken.reverse ++ head :: past) rest) ∧
        node.Alike tree

theorem term_complete (form : ApplicationForm) : CompleteExpression form (Term form) := by
  intro source entry past rest head taken tree fuel lexemes derivation same isForm _ ends enough
  subst isForm
  cases fuel with
  | zero => omega
  | succ fuel =>
      obtain ⟨node, alike, ran⟩ :=
        expressionWith_term source entry rest fuel derivation same ends.stops
      exact ⟨node, ran.trans (tailWith_ends ends node), alike⟩

/-- An operand and an operator in front of a right side that is read are read with it. -/
theorem expressionWith_math {sign : Operator} {operator : MathOperator} {left right : Node}
    {others : List Token} {start : Token} {behind : Parser} {rightNode : Node} (place : Location)
    (operand : Operand lexemes left) (same : (head :: taken).map Token.lexeme = lexemes)
    (isForm : formAfter past = .call) (isOperator : token.kind = .operator sign)
    (arithmetic : MathOperator.ofOperator? sign = some operator)
    (rights : right.kind ∈ NodeKind.mathExpression.admissible .right)
    (readRight : expressionWith (fuel + 1) start (.between source entry
      (start :: token :: (taken.reverse ++ head :: past)) others) = (.ok rightNode, behind))
    (rightAlike : rightNode.Alike right) :
    ∃ node, expressionWith (fuel + 2) head
          (.between source entry (head :: past) (taken ++ token :: start :: others)) =
        (.ok node, behind) ∧ node.Alike (.math operator left right place) := by
  have term := operand.term
  rw [← isForm] at term
  obtain ⟨leftNode, leftAlike, ran⟩ := expressionWith_term source entry
    (token :: start :: others) (fuel + 1) term same (stops_operator isOperator)
  have likeness := Node.alike_math operator
    (leftNode.location.through rightNode.location) place leftAlike rightAlike
  refine ⟨_, ?_, likeness⟩
  have sound := Grammar.sound_math operator place operand.kind_mem rights
  rw [ran, tailWith_math isOperator arithmetic]
  apply (bind_of_ok next_cons).trans
  apply (bind_of_ok readRight).trans
  exact build_of_sound (likeness.firstFault?_eq_none_iff.mpr sound) _

private theorem chain_complete : CompleteExpression .call Chain := by
  intro source entry past rest head taken tree fuel lexemes derivation same isForm isInner ends
    enough
  induction derivation generalizing past head taken fuel with
  | last operand =>
      exact term_complete .call source entry rest operand.term same isForm isInner ends enough
  | @link before after left right sign operator text place operand arithmetic chain
      inductionHypothesis =>
      obtain ⟨front, token, others, rfl, frontSame, isSign, othersSame⟩ :=
        split_append_cons operand.term.ne_nil same
      obtain ⟨_, _, rfl⟩ := chain.nonempty
      obtain ⟨start, others, rfl, _, _⟩ := List.map_eq_cons_iff.mp othersSame
      have isOperator : token.kind = .operator sign := kind_of_lexeme_eq isSign
      obtain ⟨formThere, innerThere⟩ :=
        forms_behind_term operand.term frontSame isOperator isInner
      simp only [List.length_append, List.length_cons] at enough
      obtain ⟨fuel, rfl⟩ : ∃ less, fuel = less + 2 := ⟨fuel - 2, by omega⟩
      have shorter : 2 * others.length < fuel + 1 := by omega
      obtain ⟨rightNode, readRight, rightAlike⟩ :=
        inductionHypothesis othersSame formThere innerThere shorter
      obtain ⟨node, ran, alike⟩ := expressionWith_math place operand frontSame isForm isOperator
        arithmetic chain.kind_mem readRight rightAlike
      refine ⟨node, ?_, alike⟩
      simp only [List.append_assoc, List.cons_append, ran, List.reverse_append, List.reverse_cons]
      rfl

private theorem value_complete : CompleteExpression .call Value := by
  intro source entry past rest head taken tree fuel lexemes derivation
  cases derivation with
  | term term => exact term_complete .call source entry rest term
  | chain text place operand arithmetic chain =>
      exact chain_complete source entry rest (.link text place operand arithmetic chain)

private theorem typeBody_complete : CompleteExpression .instantiation TypeBody := by
  intro source entry past rest head taken tree fuel lexemes derivation same isForm isInner ends
    enough
  cases derivation with
  | member member =>
      exact term_complete .instantiation source entry rest member same isForm isInner ends enough
  | @union before after first others bar place member members =>
      obtain ⟨front, token, more, rfl, frontSame, isBar, moreSame⟩ :=
        split_append_cons member.ne_nil same
      have isOperator : token.kind = .operator .union := kind_of_lexeme_eq isBar
      obtain ⟨formThere, innerThere⟩ := forms_behind_term member frontSame isOperator isInner
      have kinds : ∀ node ∈ first :: others,
          node.kind ∈ NodeKind.unionOperation.admissible .values := by
        intro node isMember
        rcases List.mem_cons.mp isMember with rfl | isLater
        · exact member.kind_mem_union
        · exact members.kind_mem node isLater
      have sound := Grammar.sound_union place kinds
      simp only [List.length_append, List.length_cons] at enough
      obtain ⟨fuel, rfl⟩ : ∃ less, fuel = less + 2 := ⟨fuel - 2, by omega⟩
      rw [← isForm] at member
      obtain ⟨firstNode, firstAlike, ran⟩ := expressionWith_term source entry
        (token :: (more ++ rest)) (fuel + 1) member frontSame (stops_operator isOperator)
      obtain ⟨node, readUnion, alike⟩ := union_complete source entry _ rest members moreSame
        formThere innerThere ends firstAlike place sound
      refine ⟨node, ?_, alike⟩
      rw [List.append_assoc, List.cons_append, ran, tailWith_binding isOperator rfl]
      apply readUnion.trans
      simp only [List.reverse_append, List.reverse_cons, List.append_assoc, List.cons_append]
      rfl

def CompleteStatement (Derives : List Lexeme → Node → Prop) : Prop :=
  ∀ (source : Source) (entry : Option Location) (past rest : List Token) {head : Token}
    {taken : List Token} {tree : Node} {fuel : Nat} {lexemes : List Lexeme},
    Derives lexemes tree → (head :: taken).map Token.lexeme = lexemes → Ends rest →
    2 * taken.length ≤ fuel →
      ∃ node, statementWith fuel head (.between source entry (head :: past) (taken ++ rest)) =
          (.ok node, .between source entry (taken.reverse ++ head :: past) rest) ∧
        node.Alike tree

/-- Behind its equals sign a declaration goes on with its right side. -/
theorem statementWith_declaration (source : Source) (entry : Option Location)
    (past ahead : List Token) (fuel : Nat) {word : Keyword} {start : Token}
    (isKeyword : head.kind = .keyword word) (noMain : word ≠ .mainWord)
    (derivation : Term (headForm word) lexemes tree)
    (same : (start :: taken).map Token.lexeme = lexemes)
    (isAssign : token.kind = .operator .assign) :
    ∃ left, left.Alike tree ∧
      statementWith (fuel + 3) head
          (.between source entry (head :: past) (start :: (taken ++ token :: ahead))) =
        statementOf (formOf word) head (binding .assign left (expressionWith fuel))
          (.between source entry (token :: (taken.reverse ++ start :: head :: past)) ahead) := by
  rw [← formAfter_keyword isKeyword] at derivation
  obtain ⟨left, alike, ran⟩ := expressionWith_term source entry (token :: ahead) (fuel + 1)
    derivation same (stops_operator isAssign)
  refine ⟨left, alike, ?_⟩
  rw [statementWith_of_keyword isKeyword noMain]
  unfold statementOf
  refine bind_of_eq ?_ _
  apply (bind_of_ok next_cons).trans
  rw [ran, tailWith_binding isAssign rfl]

theorem governing_declared (past : List Token) {word : Keyword} {start : Token}
    {form : ApplicationForm} (isKeyword : head.kind = .keyword word) (derivation : Term form lexemes tree)
    (same : (start :: taken).map Token.lexeme = lexemes)
    (isAssign : token.kind = .operator .assign) :
    governing (token :: (taken.reverse ++ start :: head :: past)) = some (.keyword word) ∧
      formAfter (token :: (taken.reverse ++ start :: head :: past)) =
        innerForm (some (.keyword word)) := by
  have plain : ∀ lexeme ∈ start.lexeme :: taken.map Token.lexeme,
      lexeme.kind.governs = false := by
    rw [← List.map_cons, same]
    exact derivation.noGoverning
  have governed : governing (taken.reverse ++ start :: head :: past) = some (.keyword word) := by
    rw [governing_taken plain, governing_keyword isKeyword]
  constructor
  · rw [governing_operator isAssign, governed]
  · rw [formAfter_operator isAssign, governed]

private theorem declaration_complete {word : Keyword} {form : StatementForm}
    {Left Right : List Lexeme → Node → Prop} (isForm : formOf word = form)
    (declares : form.declaresSides = true)
    (lefts : ∀ {lexemes : List Lexeme} {node : Node}, Left lexemes node →
      Term (headForm word) lexemes node ∧ node.kind ∈ form.kind.admissible .valueLeft)
    (rights : ∀ {lexemes : List Lexeme} {node : Node}, Right lexemes node →
      (∃ first others, lexemes = first :: others) ∧
        node.kind ∈ form.kind.admissible .valueRight)
    (complete : CompleteExpression (innerForm (some (.keyword word))) Right) :
    CompleteStatement (Declaration word form Left Right) := by
  intro source entry past rest head taken tree fuel lexemes derivation same ends enough
  cases derivation with
  | @declare before after left right text equals place extent declared body =>
      obtain ⟨isHead, same⟩ := List.cons.inj same
      have isKeyword : head.kind = .keyword word := kind_of_lexeme_eq isHead
      have noMain : word ≠ .mainWord := by
        rintro rfl
        subst isForm
        cases declares
      obtain ⟨term, leftKind⟩ := lefts declared
      obtain ⟨⟨_, _, rfl⟩, rightKind⟩ := rights body
      obtain ⟨front, follow, rfl, frontSame, followSame⟩ := List.map_eq_append_iff.mp same
      obtain ⟨token, follow, rfl, isEquals, followSame⟩ := List.map_eq_cons_iff.mp followSame
      obtain ⟨first, others, rfl, isFirst, othersSame⟩ := List.map_eq_cons_iff.mp followSame
      obtain ⟨_, _, rfl⟩ := term.nonempty
      obtain ⟨start, front, rfl, _, _⟩ := List.map_eq_cons_iff.mp frontSame
      have isAssign : token.kind = .operator .assign := kind_of_lexeme_eq isEquals
      simp only [List.length_append, List.length_cons] at enough
      obtain ⟨fuel, rfl⟩ : ∃ less, fuel = less + 3 := ⟨fuel - 3, by omega⟩
      obtain ⟨leftNode, leftAlike, ran⟩ := statementWith_declaration source entry past
        (first :: (others ++ rest)) fuel isKeyword noMain term frontSame isAssign
      obtain ⟨governed, inner⟩ := governing_declared past isKeyword term frontSame isAssign
      have shorter : 2 * others.length < fuel := by omega
      obtain ⟨rightNode, readRight, rightAlike⟩ := complete source entry rest body followSame
        inner (by rw [governed]) ends shorter
      have sidesAlike := Node.alike_assignment
        (leftNode.location.through rightNode.location) place leftAlike rightAlike
      have likeness := Node.alike_statement form (head.location.through
        (leftNode.location.through rightNode.location)) extent sidesAlike
      refine ⟨_, ?_, likeness⟩
      have sidesSound := sidesAlike.firstFault?_eq_none_iff.mpr
        (Grammar.sound_assignment place leftKind rightKind)
      have sound := likeness.firstFault?_eq_none_iff.mpr
        (Grammar.sound_declaration place extent declares leftKind rightKind)
      simp only [List.cons_append, List.append_assoc] at ran ⊢
      rw [ran, isForm]
      have bound : binding .assign leftNode (expressionWith fuel)
          (.between source entry (token :: (front.reverse ++ start :: head :: past))
            (first :: (others ++ rest))) = _ :=
        (bind_of_ok next_cons).trans ((bind_of_ok readRight).trans (build_of_sound sidesSound _))
      refine (bind_of_ok bound).trans ((build_of_sound sound _).trans ?_)
      simp only [List.reverse_append, List.reverse_cons, List.append_assoc, List.cons_append]
      rfl

theorem let_complete : CompleteStatement Grammar.LetDeclaration := by
  refine declaration_complete rfl rfl ?_ ?_ value_complete
  · intro lexemes node derivation
    cases derivation with
    | name text place => exact ⟨.named (.name text place), List.mem_singleton_self _⟩
  · intro lexemes node derivation
    exact ⟨derivation.nonempty, derivation.kind_mem⟩

theorem type_complete : CompleteStatement Grammar.TypeDeclaration := by
  refine declaration_complete rfl rfl ?_ ?_ typeBody_complete
  · intro lexemes node derivation
    exact ⟨.named derivation, derivation.kind_mem⟩
  · intro lexemes node derivation
    exact ⟨derivation.nonempty, derivation.kind_mem⟩

private theorem return_complete : CompleteStatement Grammar.Return := by
  intro source entry past rest head taken tree fuel lexemes derivation same ends enough
  cases derivation with
  | value text place value =>
      obtain ⟨isHead, same⟩ := List.cons.inj same
      have isKeyword : head.kind = .keyword .returnWord := kind_of_lexeme_eq isHead
      obtain ⟨_, _, rfl⟩ := value.nonempty
      obtain ⟨start, taken, rfl, _, _⟩ := List.map_eq_cons_iff.mp same
      simp only [List.length_cons] at enough
      obtain ⟨fuel, rfl⟩ : ∃ less, fuel = less + 1 := ⟨fuel - 1, by omega⟩
      have shorter : 2 * taken.length < fuel := by omega
      have inner : innerForm (governing (head :: past)) = .call := by
        rw [governing_keyword isKeyword]
        rfl
      obtain ⟨node, read, alike⟩ := value_complete source entry rest value same
        (formAfter_keyword isKeyword) inner ends shorter
      have likeness := Node.alike_statement .result (head.location.through node.location)
        place alike
      have sound := Grammar.sound_return place value.kind_mem
      refine ⟨_, ?_, likeness⟩
      rw [statementWith_of_keyword isKeyword (by decide)]
      unfold statementOf
      apply (bind_of_ok ((bind_of_ok next_cons).trans read)).trans
      refine (build_of_sound (likeness.firstFault?_eq_none_iff.mpr sound) _).trans ?_
      rw [List.reverse_cons, List.append_assoc]
      rfl

theorem inner_complete : CompleteStatement Inner := by
  intro source entry past rest head taken tree fuel lexemes derivation
  cases derivation with
  | type declaration => exact type_complete source entry past rest declaration
  | binding declaration => exact let_complete source entry past rest declaration
  | result result => exact return_complete source entry past rest result

theorem ends_of_keyword {word : Keyword} (isKeyword : token.kind = .keyword word) :
    Ends (token :: ahead) := by
  intro other isFirst
  cases isFirst
  unfold endsUnion
  rw [isKeyword]
  rfl

theorem ends_of_sequence {Item : List Lexeme → Node → Prop} {trees : List Node}
    (starts : ∀ {lexemes : List Lexeme} {node : Node}, Item lexemes node →
      ∃ word text others, lexemes = ⟨.keyword word, text⟩ :: others)
    (derivation : Sequence Item lexemes trees) (same : taken.map Token.lexeme = lexemes)
    (ends : Ends rest) : Ends (taken ++ rest) := by
  cases derivation with
  | nil =>
      rw [List.map_eq_nil_iff.mp same]
      exact ends
  | cons item items =>
      obtain ⟨word, text, others, rfl⟩ := starts item
      obtain ⟨token, more, rfl, isKeyword, _⟩ := List.map_eq_cons_iff.mp same
      exact ends_of_keyword (kind_of_lexeme_eq isKeyword)

/-- Reading a block reads the statements that are ahead and then goes on behind them. -/
theorem blockStatementsWith_sequence (source : Source) (entry : Option Location)
    (past rest : List Token) (opening : Position) {trees : List Node}
    (derivation : Sequence Inner lexemes trees) (same : taken.map Token.lexeme = lexemes)
    (ends : Ends rest) (enough : 2 * taken.length ≤ fuel + trees.length) :
    ∃ nodes, Node.AlikeAll nodes trees ∧
      blockStatementsWith (fuel + trees.length) opening
          (.between source entry past (taken ++ rest)) =
        (blockStatementsWith fuel opening >>= fun others =>
          pure (nodes ++ others.1, others.2) : Parse (List Node × Location))
          (.between source entry (taken.reverse ++ past) rest) := by
  induction derivation generalizing past taken with
  | nil =>
      rw [List.map_eq_nil_iff.mp same]
      exact ⟨[], .nil, (congrFun (bind_pure_eq _) _).symm⟩
  | @cons _ _ tree trees item items inductionHypothesis =>
      obtain ⟨word, text, others, rfl, isInner⟩ := item.starts
      obtain ⟨front, follow, rfl, frontSame, followSame⟩ := List.map_eq_append_iff.mp same
      obtain ⟨token, front, rfl, isHead, _⟩ := List.map_eq_cons_iff.mp frontSame
      have isKeyword : token.kind = .keyword word := kind_of_lexeme_eq isHead
      simp only [List.length_append, List.length_cons] at enough
      have endsBehind : Ends (follow ++ rest) :=
        ends_of_sequence Inner.starts_keyword items followSame ends
      obtain ⟨node, read, alike⟩ := inner_complete source entry past (follow ++ rest)
        item frontSame endsBehind (by omega : 2 * front.length ≤ fuel + trees.length)
      obtain ⟨nodes, alikeAll, ran⟩ := inductionHypothesis (front.reverse ++ token :: past)
        followSame (by omega)
      refine ⟨node :: nodes, .cons alike alikeAll, ?_⟩
      rw [List.append_assoc, List.cons_append, List.length_cons, ← Nat.add_assoc,
        blockStatementsWith_keyword opening isKeyword isInner]
      apply (bind_of_ok (mapError_eq_ok.mpr read)).trans
      apply (bind_of_eq ran _).trans
      rw [bind_assoc_eq]
      simp only [List.reverse_append, List.reverse_cons, List.append_assoc, List.cons_append]
      rfl

private theorem block_complete (form : ApplicationForm) : CompleteExpression form Block := by
  intro source entry past rest head taken tree fuel lexemes derivation same _ _ _ enough
  cases derivation with
  | @braces inside trees start stop place items =>
      obtain ⟨isHead, same⟩ := List.cons.inj same
      obtain ⟨body, last, rfl, bodySame, lastSame⟩ := List.map_eq_append_iff.mp same
      obtain ⟨closer, rfl, isLast⟩ := List.map_eq_singleton_iff.mp lastSame
      have opens : head.kind = .openBrace := kind_of_lexeme_eq isHead
      have closes : closer.kind = .closeBrace := kind_of_lexeme_eq isLast
      have fewer : trees.length ≤ body.length := by
        have bound := items.length_le Inner.starts_keyword
        rwa [← bodySame, List.length_map] at bound
      have ends : Ends (closer :: rest) := by
        intro other isFirst
        cases isFirst
        unfold endsUnion
        rw [closes]
        rfl
      simp only [List.length_append, List.length_cons, List.length_nil] at enough
      obtain ⟨less, rfl⟩ : ∃ less, fuel = less + 1 + trees.length + 1 :=
        ⟨fuel - trees.length - 2, by omega⟩
      obtain ⟨nodes, alike, ran⟩ := blockStatementsWith_sequence source entry (head :: past)
        (closer :: rest) head.position items bodySame ends
        (by omega : 2 * body.length ≤ less + 1 + trees.length)
      have likeness := Node.alike_block (head.location.through closer.location) place alike
      have sound : (Node.block trees place).firstFault? = none :=
        (Node.faultAmong?_eq_none_iff _ _ _).mpr (items.kind_mem Grammar.Inner.kind_mem)
      refine ⟨_, ?_, likeness⟩
      rw [expressionWith_succ, if_pos opens, List.append_assoc]
      unfold blockOf
      have closed := ran.trans (bind_of_ok (blockStatementsWith_close head.position closes))
      apply (bind_of_ok closed).trans
      rw [List.append_nil]
      refine (build_of_sound (likeness.firstFault?_eq_none_iff.mpr sound) _).trans ?_
      simp only [List.reverse_append, List.reverse_cons, List.append_assoc]
      rfl

private theorem functionBody_complete : CompleteExpression .call FunctionBody := by
  intro source entry past rest head taken tree fuel lexemes derivation
  cases derivation with
  | value value => exact value_complete source entry rest value
  | block block => exact block_complete .call source entry rest block

theorem function_complete {word : Keyword} (isFun : word.isFun = true) :
    CompleteStatement (Grammar.FunctionDeclaration word) := by
  have isForm : formOf word = .function := by
    cases word <;> first | rfl | cases isFun
  have isHead : headForm word = .functionParameters := by
    cases word <;> first | rfl | cases isFun
  have isInner : innerForm (some (.keyword word)) = .call := by
    cases word <;> first | rfl | cases isFun
  refine declaration_complete isForm rfl ?_ ?_ ?_
  · intro lexemes node derivation
    rw [isHead]
    exact ⟨.named derivation, derivation.kind_mem⟩
  · intro lexemes node derivation
    exact ⟨derivation.nonempty, derivation.kind_mem⟩
  · rw [isInner]
    exact functionBody_complete

end SprigCompiler.Parse
