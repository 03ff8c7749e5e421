import SprigCompiler.Proofs.Grammar.Blocks
import SprigCompiler.Proofs.Parser.Cuts
import SprigCompiler.Proofs.Parser.Programs

/-!
Programs that are cut off inside a block.

A block that is not closed is reported at its opening brace, so that more text can be asked for.
There is one exception: a declaration that is cut off directly before its equals sign is complete
for the expression parser, and it is refused because it declares nothing.
-/

namespace SprigCompiler.Parse

open Grammar (Term Name Named Declaration Sequence Inner Header Statement Program)

variable {source : Source} {entry : Option Location} {past taken cut inside : List Token}
  {token head : Token} {tree : Node} {fuel : Nat} {lexemes : List Lexeme}

private theorem statementOf_fails {form : StatementForm} {value : Parse Node} {parser : Parser}
    {error : ParseError} (fails : Fails value parser error) :
    Fails (statementOf form head value) parser error := by
  unfold statementOf
  exact fails.bind _

private theorem next_fails {Second : Type} {rest : Token → Parse Second} {error : ParseError}
    (fails : Fails (rest token) (.between source entry (token :: past) cut) error) :
    Fails (next >>= rest) (.between source entry past (token :: cut)) error := by
  obtain ⟨behind, failed⟩ := fails
  exact ⟨behind, (bind_of_ok next_cons).trans failed⟩

/-- A declaration that is cut off behind its equals sign is a declaration itself, or reading it runs
out of tokens. -/
theorem declaration_cut_right (source : Source) (entry : Option Location) (past : List Token)
    {start : Token} {front follow : List Token} {word : Keyword} {before after : List Lexeme}
    {left right : Node} {Right : List Lexeme → Node → Prop} (isKeyword : head.kind = .keyword word)
    (noMain : word ≠ .mainWord) (term : Term (headForm word) before left)
    (frontSame : (start :: front).map Token.lexeme = before)
    (isAssign : token.kind = .operator .assign) (body : Right after right)
    (cutRight : follow.map Token.lexeme <+: after)
    (rightCuts : CutExpression (innerForm (some (.keyword word))) Right)
    (enough : 2 * follow.length < fuel + 2) :
    (∃ other, Right (follow.map Token.lexeme) other) ∨
      RunsOut source (statementWith (fuel + 3) head)
        (.between source entry (head :: past) (start :: (front ++ token :: follow))) := by
  obtain ⟨node, _, ran⟩ := statementWith_declaration source entry past follow fuel
    isKeyword noMain term frontSame isAssign
  unfold RunsOut Fails
  rw [ran]
  cases follow with
  | nil => exact .inr (statementOf_fails (next_runsOut.bind _))
  | cons first follow =>
      obtain ⟨governed, inner⟩ := governing_declared past isKeyword term frontSame isAssign
      rw [List.length_cons] at enough
      have shorter : 2 * follow.length < fuel := by omega
      rcases rightCuts source entry body cutRight inner (by rw [governed]) shorter with
        whole | runsOut
      · exact .inl whole
      · exact .inr (statementOf_fails (next_fails (runsOut.bind _)))

/-- What is left of a declaration is a declaration itself, or it ends before the equals sign, or
its reader runs out of tokens. -/
theorem declaration_cut (source : Source) (entry : Option Location) {word : Keyword}
    {form : StatementForm} {Left Right : List Lexeme → Node → Prop}
    (derivation : Declaration word form Left Right lexemes tree)
    (cutOff : (head :: cut).map Token.lexeme <+: lexemes) (noMain : word ≠ .mainWord)
    (lefts : ∀ {lexemes : List Lexeme} {node : Node}, Left lexemes node →
      Term (headForm word) lexemes node)
    (leftCuts : ∀ {lexemes part : List Lexeme} {node other : Node}, Left lexemes node →
      part <+: lexemes → Term (headForm word) part other → ∃ node, Left part node)
    (rightCuts : CutExpression (innerForm (some (.keyword word))) Right)
    (enough : 2 * cut.length ≤ fuel) :
    (∃ other, Declaration word form Left Right ((head :: cut).map Token.lexeme) other) ∨
      (∃ text header node, (head :: cut).map Token.lexeme = ⟨.keyword word, text⟩ :: header ∧
        Left header node) ∨
      RunsOut source (statementWith fuel head) (.between source entry (head :: past) cut) := by
  cases fuel with
  | zero => exact .inr (.inr ⟨_, rfl⟩)
  | succ fuel =>
      cases derivation with
      | @declare before after left right text equals place extent declared body =>
          obtain ⟨isHead, cutRest⟩ := List.cons_prefix_cons.mp cutOff
          have isKeyword : head.kind = .keyword word := kind_of_lexeme_eq isHead
          have term := lefts declared
          cases cut with
          | nil =>
              rw [statementWith_of_keyword isKeyword noMain]
              exact .inr (.inr (statementOf_fails (next_runsOut.bind _)))
          | cons start cut =>
              rcases cut_append_cons term.ne_nil cutRest with
                cutLeft | ⟨front, token, follow, rfl, frontSame, isEquals, cutRight⟩
              · have derivation : Term (formAfter (head :: past)) before left := by
                  rw [formAfter_keyword isKeyword]
                  exact term
                rcases operand_cut source entry derivation cutLeft with ⟨other, whole⟩ | runsOut
                · rw [formAfter_keyword isKeyword] at whole
                  obtain ⟨node, header⟩ := leftCuts declared cutLeft whole
                  refine .inr (.inl ⟨text, _, node, ?_, header⟩)
                  rw [List.map_cons, isHead]
                · rw [statementWith_of_keyword isKeyword noMain]
                  refine .inr (.inr (statementOf_fails (next_fails ?_)))
                  exact expressionWith_runsOut (head_of_cut term cutLeft) runsOut
              · have isAssign : token.kind = .operator .assign := kind_of_lexeme_eq isEquals
                simp only [List.length_append, List.length_cons] at enough
                obtain ⟨fuel, rfl⟩ : ∃ less, fuel = less + 2 := ⟨fuel - 2, by omega⟩
                have shorter : 2 * follow.length < fuel + 2 := by omega
                rcases declaration_cut_right source entry past isKeyword noMain term frontSame
                  isAssign body cutRight rightCuts shorter with ⟨other, whole⟩ | runsOut
                · refine .inl ⟨.statement form (.assignment left other place) extent, ?_⟩
                  rw [List.map_cons, isHead, ← List.cons_append, List.map_append, frontSame,
                    List.map_cons, isEquals]
                  exact .declare text equals place extent declared whole
                · exact .inr (.inr runsOut)

private theorem return_cut (source : Source) (entry : Option Location)
    (derivation : Grammar.Return lexemes tree)
    (cutOff : (head :: cut).map Token.lexeme <+: lexemes) (enough : 2 * cut.length ≤ fuel) :
    (∃ other, Grammar.Return ((head :: cut).map Token.lexeme) other) ∨
      RunsOut source (statementWith fuel head) (.between source entry (head :: past) cut) := by
  cases fuel with
  | zero => exact .inr ⟨_, rfl⟩
  | succ fuel =>
      cases derivation with
      | value text place value =>
          obtain ⟨isHead, cutRest⟩ := List.cons_prefix_cons.mp cutOff
          have isKeyword : head.kind = .keyword .returnWord := kind_of_lexeme_eq isHead
          rw [statementWith_of_keyword isKeyword (by decide)]
          cases cut with
          | nil => exact .inr (statementOf_fails (next_runsOut.bind _))
          | cons start cut =>
              have inner : innerForm (governing (head :: past)) = .call := by
                rw [governing_keyword isKeyword]
                rfl
              simp only [List.length_cons] at enough
              have shorter : 2 * cut.length < fuel := by omega
              rcases value_cut source entry value cutRest (formAfter_keyword isKeyword) inner
                shorter with ⟨other, whole⟩ | runsOut
              · refine .inl ⟨.statement .result other place, ?_⟩
                rw [List.map_cons, isHead]
                exact .value text place whole
              · exact .inr (statementOf_fails (next_fails runsOut))

/-- What is left of a statement of a block is such a statement itself, or a header, or its reader
runs out of tokens. -/
theorem inner_cut (source : Source) (entry : Option Location) (derivation : Inner lexemes tree)
    (cutOff : (head :: cut).map Token.lexeme <+: lexemes) (enough : 2 * cut.length ≤ fuel) :
    (∃ other, Inner ((head :: cut).map Token.lexeme) other) ∨
      Header ((head :: cut).map Token.lexeme) ∨
      RunsOut source (statementWith fuel head) (.between source entry (head :: past) cut) := by
  cases derivation with
  | type declaration =>
      have headerCut : ∀ {lexemes part : List Lexeme} {node other : Node},
          Named .typeParameters lexemes node → part <+: lexemes →
          Term .typeParameters part other → ∃ node, Named .typeParameters part node := by
        intro lexemes part node other declared cutName term
        exact ⟨other, term.named_of_cut declared cutName⟩
      rcases declaration_cut source entry declaration cutOff (by decide)
        (fun declared => Term.named declared) headerCut typeBody_cut enough with
        ⟨other, whole⟩ | ⟨text, header, node, isHeader, declared⟩ | runsOut
      · exact .inl ⟨other, .type whole⟩
      · rw [isHeader]
        exact .inr (.inl (.type text declared))
      · exact .inr (.inr runsOut)
  | binding declaration =>
      have headerCut : ∀ {lexemes part : List Lexeme} {node other : Node}, Name lexemes node →
          part <+: lexemes → Term .call part other → ∃ node, Name part node := by
        intro lexemes part node other declared cutName term
        obtain ⟨first, others, rfl⟩ := term.nonempty
        cases declared with
        | name text place =>
            obtain ⟨rfl, cutNil⟩ := List.cons_prefix_cons.mp cutName
            rw [List.prefix_nil.mp cutNil]
            exact ⟨.identifier text place, .name text place⟩
      rcases declaration_cut source entry declaration cutOff (by decide)
        (fun declared => Term.named (declared.named .call)) headerCut value_cut enough with
        ⟨other, whole⟩ | ⟨text, header, node, isHeader, declared⟩ | runsOut
      · exact .inl ⟨other, .binding whole⟩
      · rw [isHeader]
        exact .inr (.inl (.binding text declared))
      · exact .inr (.inr runsOut)
  | result result =>
      rcases return_cut source entry result cutOff enough with ⟨other, whole⟩ | runsOut
      · exact .inl ⟨other, .result whole⟩
      · exact .inr (.inr runsOut)

private theorem statement_refused (source : Source) (entry : Option Location) {word : Keyword}
    {start : Token} (isKeyword : head.kind = .keyword word) (noMain : word ≠ .mainWord)
    (table : (formOf word).kind.admissible .value = [.assignmentExpression])
    (derivation : Term (headForm word) lexemes tree)
    (same : (start :: cut).map Token.lexeme = lexemes) :
    ∃ fault, fault.expected = [.assignmentExpression] ∧
      Fails (statementWith (fuel + 2) head) (.between source entry (head :: past) (start :: cut))
        (.invalidNode fault) := by
  rw [← formAfter_keyword isKeyword] at derivation
  have stops : Stops ([] : List Token) := nofun
  have ends : Ends ([] : List Token) := nofun
  obtain ⟨node, alike, ran⟩ := expressionWith_term source entry [] fuel derivation same stops
  rw [List.append_nil, tailWith_ends ends] at ran
  have noAssignment : node.kind ∉ [NodeKind.assignmentExpression] := by
    intro isAssignment
    have kinds := derivation.kind_mem
    rw [← alike.kind_eq, List.mem_singleton.mp isAssignment] at kinds
    cases form : formAfter (head :: past) <;> rw [form] at kinds <;>
      simp [ApplicationForm.kind, NodeKind.literals] at kinds
  refine ⟨⟨(formOf word).kind, .value, some node.kind, node.location⟩, table, ?_⟩
  have faulty : (Node.statement (formOf word) node (head.location.through node.location)).firstFault?
      = some ⟨(formOf word).kind, .value, some node.kind, node.location⟩ := by
    have refused : Node.fault? (formOf word).kind .value node =
        some ⟨(formOf word).kind, .value, some node.kind, node.location⟩ :=
      if_neg (by rw [table]; exact noAssignment)
    rw [Node.firstFault?, refused]
    rfl
  rw [statementWith_of_keyword isKeyword noMain]
  unfold statementOf
  exact ⟨_, (bind_of_ok ((bind_of_ok next_cons).trans ran)).trans (build_of_fault faulty _)⟩

/-- A header is refused as a statement, because a name is no assignment. -/
theorem header_refused (source : Source) (entry : Option Location)
    (header : Header ((head :: cut).map Token.lexeme)) (enough : 2 * cut.length ≤ fuel) :
    ∃ fault, fault.expected = [.assignmentExpression] ∧
      Fails (statementWith fuel head) (.between source entry (head :: past) cut)
        (.invalidNode fault) := by
  generalize same : (head :: cut).map Token.lexeme = lexemes at header
  cases header with
  | type text declared =>
      obtain ⟨isHead, follow⟩ := List.cons.inj same
      have term := Term.named declared
      obtain ⟨_, _, rfl⟩ := term.nonempty
      obtain ⟨start, cut, rfl, _, _⟩ := List.map_eq_cons_iff.mp follow
      simp only [List.length_cons] at enough
      obtain ⟨fuel, rfl⟩ : ∃ less, fuel = less + 2 := ⟨fuel - 2, by omega⟩
      exact statement_refused source entry (kind_of_lexeme_eq isHead) (by decide) rfl term follow
  | binding text declared =>
      obtain ⟨isHead, follow⟩ := List.cons.inj same
      have term := Term.named (declared.named .call)
      obtain ⟨_, _, rfl⟩ := term.nonempty
      obtain ⟨start, cut, rfl, _, _⟩ := List.map_eq_cons_iff.mp follow
      simp only [List.length_cons] at enough
      obtain ⟨fuel, rfl⟩ : ∃ less, fuel = less + 2 := ⟨fuel - 2, by omega⟩
      exact statement_refused source entry (kind_of_lexeme_eq isHead) (by decide) rfl term follow

/-! ### Blocks that are cut off -/

/-- What a block that is not closed fails with: a header at its end is refused, and anything else
waits for more. -/
def FailsUnclosed {Result : Type} (opening : Position) (lexemes : List Lexeme)
    (step : Parse Result) (parser : Parser) : Prop :=
  ((∃ header, Header header ∧ header <:+ lexemes) →
    ∃ fault, fault.expected = [.assignmentExpression] ∧
      Fails step parser (.invalidNode fault)) ∧
  ((¬∃ header, Header header ∧ header <:+ lexemes) → Fails step parser (.incomplete opening))

theorem FailsUnclosed.of_fails {First Second : Type} {opening : Position} {step : Parse First}
    {other : Parse Second} {parser otherParser : Parser}
    (fails : FailsUnclosed opening lexemes step parser)
    (also : ∀ error, Fails step parser error → Fails other otherParser error) :
    FailsUnclosed opening lexemes other otherParser := by
  constructor
  · intro ends
    obtain ⟨fault, expected, failed⟩ := fails.1 ends
    exact ⟨fault, expected, also _ failed⟩
  · intro waits
    exact also _ (fails.2 waits)

/-- What ends with the same headers fails in the same way. -/
theorem FailsUnclosed.of_suffix {Result : Type} {opening : Position} {step : Parse Result}
    {parser : Parser} {others : List Lexeme} (fails : FailsUnclosed opening lexemes step parser)
    (sameEnd : ∀ header, Header header → (header <:+ others ↔ header <:+ lexemes)) :
    FailsUnclosed opening others step parser := by
  constructor
  · rintro ⟨header, isHeader, ending⟩
    exact fails.1 ⟨header, isHeader, (sameEnd header isHeader).mp ending⟩
  · intro noHeader
    apply fails.2
    rintro ⟨header, isHeader, ending⟩
    exact noHeader ⟨header, isHeader, (sameEnd header isHeader).mpr ending⟩

private theorem mapError_fails {Result : Type} {step : Parse Result} {parser : Parser}
    {error : ParseError} (change : ParseError → ParseError) (fails : Fails step parser error) :
    Fails (step.mapError change) parser (change error) := by
  obtain ⟨behind, failed⟩ := fails
  refine ⟨behind, ?_⟩
  unfold mapError
  rw [failed]

private theorem blockStatementsWith_end (opening : Position) :
    Fails (blockStatementsWith fuel opening) (.between source entry past []) (.incomplete opening) := by
  cases fuel with
  | zero => exact ⟨_, rfl⟩
  | succ fuel => exact ⟨_, blockStatementsWith_nil opening⟩

private theorem blockStatementsWith_nothing (source : Source) (entry : Option Location)
    (past : List Token) (opening : Position) :
    FailsUnclosed opening [] (blockStatementsWith fuel opening)
      (.between source entry past []) := by
  constructor
  · rintro ⟨header, isHeader, ending⟩
    rw [List.suffix_nil.mp ending] at isHeader
    cases isHeader
  · intro _
    exact blockStatementsWith_end opening

/-- A block that ends within its last statement. -/
theorem blockStatementsWith_last (source : Source) (entry : Option Location) (past : List Token)
    (opening : Position) (derivation : Inner lexemes tree)
    (cutOff : (head :: cut).map Token.lexeme <+: lexemes)
    (enough : 2 * (head :: cut).length ≤ fuel) :
    FailsUnclosed opening ((head :: cut).map Token.lexeme) (blockStatementsWith fuel opening)
      (.between source entry past (head :: cut)) := by
  obtain ⟨word, text, others, rfl, isInner, plain⟩ := derivation.tail_noGoverning
  obtain ⟨isHead, cutOthers⟩ := List.cons_prefix_cons.mp cutOff
  have isKeyword : head.kind = .keyword word := kind_of_lexeme_eq isHead
  simp only [List.length_cons] at enough
  obtain ⟨fuel, rfl⟩ : ∃ less, fuel = less + 1 := ⟨fuel - 1, by omega⟩
  have bound : 2 * cut.length ≤ fuel := by omega
  unfold FailsUnclosed Fails
  rw [blockStatementsWith_keyword opening isKeyword isInner]
  constructor
  · rintro ⟨header, isHeader, ending⟩
    have whole : header = (head :: cut).map Token.lexeme := by
      refine isHeader.eq_of_suffix ?_ ending
      intro lexeme isMember
      exact plain lexeme (cutOthers.mem isMember)
    rw [whole] at isHeader
    obtain ⟨fault, expected, failed⟩ :=
      @header_refused past cut head fuel source entry isHeader bound
    exact ⟨fault, expected, (mapError_fails (.insideBlock opening) failed).bind _⟩
  · intro noHeader
    rcases @inner_cut past cut head tree fuel _ source entry derivation cutOff bound with
      ⟨other, whole⟩ | isHeader | runsOut
    · obtain ⟨node, read, _⟩ := inner_complete source entry past [] whole rfl nofun bound
      rw [List.append_nil] at read
      obtain ⟨behind, failed⟩ := @blockStatementsWith_end source entry
        (cut.reverse ++ head :: past) fuel opening
      exact ⟨behind, (bind_of_ok (mapError_eq_ok.mpr read)).trans (bind_of_error failed)⟩
    · exact absurd ⟨_, isHeader, List.suffix_rfl⟩ noHeader
    · exact (mapError_fails (.insideBlock opening) runsOut).bind _

/-- A block fails behind one of its statements as the rest of it does. -/
theorem blockStatementsWith_fails {word : Keyword} {opening : Position} {rest ahead : List Token}
    {behind : List Token} {error : ParseError} {node : Node} (isKeyword : head.kind = .keyword word)
    (isInner : word.startsInner = true)
    (read : statementWith fuel head (.between source entry (head :: past) rest) =
      (.ok node, .between source entry behind ahead))
    (fails : Fails (blockStatementsWith fuel opening) (.between source entry behind ahead) error) :
    Fails (blockStatementsWith (fuel + 1) opening) (.between source entry past (head :: rest))
      error := by
  obtain ⟨stopped, failed⟩ := fails
  refine ⟨stopped, ?_⟩
  rw [blockStatementsWith_keyword opening isKeyword isInner]
  exact (bind_of_ok (mapError_eq_ok.mpr read)).trans (bind_of_error failed)

private theorem Sequence.keyword_of_cut {next : Token} {follow : List Token} {trees : List Node}
    (items : Sequence Inner lexemes trees)
    (cutOff : (next :: follow).map Token.lexeme <+: lexemes) : ∃ word, next.kind = .keyword word := by
  cases items with
  | nil => cases List.prefix_nil.mp cutOff
  | cons second _ =>
      obtain ⟨word, _, _, rfl⟩ := second.starts_keyword
      exact ⟨word, kind_of_lexeme_eq (List.cons_prefix_cons.mp cutOff).1⟩

private theorem blockStatementsWith_unclosed (source : Source) (entry : Option Location)
    (past : List Token) (opening : Position) {trees : List Node}
    (derivation : Sequence Inner lexemes trees) (cutOff : inside.map Token.lexeme <+: lexemes)
    (enough : 2 * inside.length ≤ fuel) :
    FailsUnclosed opening (inside.map Token.lexeme) (blockStatementsWith fuel opening)
      (.between source entry past inside) := by
  induction derivation generalizing past inside fuel with
  | nil =>
      rw [List.map_eq_nil_iff.mp (List.prefix_nil.mp cutOff)]
      exact blockStatementsWith_nothing source entry past opening
  | cons inner items inductionHypothesis =>
      rcases cut_append cutOff with cutInner | ⟨front, token, follow, rfl, frontSame, cutItems⟩
      -- The cut is within this statement.
      · cases inside with
        | nil => exact blockStatementsWith_nothing source entry past opening
        | cons head cut =>
            exact blockStatementsWith_last source entry past opening inner cutInner enough
      -- The cut is behind it: then the next statement has begun, and this one is read as a whole.
      · obtain ⟨next, isNext⟩ := Sequence.keyword_of_cut items cutItems
        have governs : token.lexeme.kind.governs = true := by
          change token.kind.governs = true
          rw [isNext]
          rfl
        obtain ⟨word, text, others, rfl, isInner, _⟩ := inner.tail_noGoverning
        obtain ⟨head, front, rfl, isHead, _⟩ := List.map_eq_cons_iff.mp frontSame
        have isKeyword : head.kind = .keyword word := kind_of_lexeme_eq isHead
        simp only [List.length_append, List.length_cons] at enough
        obtain ⟨fuel, rfl⟩ : ∃ less, fuel = less + 1 := ⟨fuel - 1, by omega⟩
        have bound : 2 * front.length ≤ fuel := by omega
        have boundRest : 2 * (token :: follow).length ≤ fuel := by
          rw [List.length_cons]
          omega
        obtain ⟨node, read, _⟩ := inner_complete source entry past (token :: follow) inner
          frontSame (ends_of_keyword isNext) bound
        have later := inductionHypothesis (front.reverse ++ head :: past) cutItems boundRest
        have sameEnd : ∀ header, Header header →
            (header <:+ (head :: front ++ token :: follow).map Token.lexeme ↔
              header <:+ (token :: follow).map Token.lexeme) := by
          intro header isHeader
          rw [List.map_append, List.map_cons]
          exact isHeader.suffix_append governs
        exact (later.of_suffix sameEnd).of_fails fun _ fails =>
          blockStatementsWith_fails isKeyword isInner read fails

/-! ### Programs that are cut off -/

private theorem binding_fails {left : Node} {error : ParseError}
    (fails : Fails (expressionWith fuel token) (.between source entry (token :: past) cut) error) :
    Fails (binding .assign left (expressionWith fuel)) (.between source entry past (token :: cut))
      error := by
  unfold binding
  exact next_fails (fails.bind _)

/-- A function whose body is a block fails as the block does. -/
theorem function_unclosed (source : Source) (entry : Option Location) (past : List Token)
    {word : Keyword} {start opening : Token} {items : List Lexeme} {trees : List Node}
    (isKeyword : head.kind = .keyword word) (noMain : word ≠ .mainWord)
    (derivation : Term (headForm word) lexemes tree)
    (same : (start :: taken).map Token.lexeme = lexemes)
    (isAssign : token.kind = .operator .assign) (isBrace : opening.kind = .openBrace)
    (inners : Sequence Inner items trees) (cutOff : inside.map Token.lexeme <+: items) :
    FailsUnclosed opening.position (inside.map Token.lexeme) (statement head)
      (.between source entry (head :: past)
        (start :: (taken ++ token :: opening :: inside))) := by
  obtain ⟨fuel, isFuel, enough⟩ : ∃ fuel,
      2 * (start :: (taken ++ token :: opening :: inside)).length + 1 = fuel + 1 + 3 ∧
        2 * inside.length ≤ fuel := by
    refine ⟨2 * taken.length + 2 * inside.length + 3, ?_, by omega⟩
    simp only [List.length_cons, List.length_append]
    omega
  have fails := blockStatementsWith_unclosed source entry
    (opening :: token :: (taken.reverse ++ start :: head :: past)) opening.position inners cutOff
    enough
  refine fails.of_fails fun error failed => ?_
  obtain ⟨left, _, ran⟩ := statementWith_declaration source entry past (opening :: inside)
    (fuel + 1) isKeyword noMain derivation same isAssign
  unfold Fails
  rw [statement_between, isFuel, ran]
  refine statementOf_fails (binding_fails ?_)
  unfold Fails
  rw [expressionWith_succ, if_pos isBrace]
  exact Fails.bind failed _

theorem program_fails (source : Source) (tokens : List Token) {error : ParseError}
    (fails : Fails (statements tokens.length) (.between source none [] tokens) error) :
    (program (.ofTokens source tokens)).1 = .error error := by
  obtain ⟨behind, failed⟩ := fails
  have ran : program (.between source none [] tokens) = (.error error, behind) :=
    (bind_of_ok ahead_between).trans (bind_of_error failed)
  rw [Parser.ofTokens_eq_between, ran]

private theorem items_of_closed {rest : List Token}
    (closed : Grammar.Closed (inside.map Token.lexeme ++ rest.map Token.lexeme))
    (unclosed : ∀ token ∈ inside, token.kind ≠ .closeBrace) :
    ∃ items trees, Sequence Inner items trees ∧ inside.map Token.lexeme <+: items := by
  generalize whole : inside.map Token.lexeme ++ rest.map Token.lexeme = lexemes at closed
  cases closed with
  | brace stop after items =>
      rcases Grammar.split_append whole with ⟨more, isItems, _⟩ | ⟨more, isInside, _⟩
      · exact ⟨_, _, items, more, isItems.symm⟩
      · obtain ⟨front, follow, rfl, _, isBrace⟩ := List.map_eq_append_iff.mp isInside
        obtain ⟨brace, others, rfl, isClose, _⟩ := List.map_eq_cons_iff.mp isBrace
        have isMember : brace ∈ front ++ brace :: others :=
          List.mem_append_right _ List.mem_cons_self
        exact absurd (kind_of_lexeme_eq isClose) (unclosed brace isMember)

private theorem statements_unclosed (source : Source) {front : List Token} {opening : Token}
    {items : List Lexeme} {trees : List Node}
    (opened : Grammar.Opened (front.map Token.lexeme)) (isBrace : opening.kind = .openBrace)
    (inners : Sequence Inner items trees) (cutOff : inside.map Token.lexeme <+: items) :
    FailsUnclosed opening.position (inside.map Token.lexeme)
      (statements (front ++ opening :: inside).length)
      (.between source none [] (front ++ opening :: inside)) := by
  generalize same : front.map Token.lexeme = lexemes at opened
  cases opened with
  | @function earlier declared nodes tree word text equals sequence oneMain isFun named =>
      obtain ⟨done, follow, rfl, doneSame, followSame⟩ := List.map_eq_append_iff.mp same
      obtain ⟨head, follow, rfl, isHead, headerSame⟩ := List.map_eq_cons_iff.mp followSame
      obtain ⟨header, last, rfl, namedSame, lastSame⟩ := List.map_eq_append_iff.mp headerSame
      obtain ⟨token, rfl, isEquals⟩ := List.map_eq_singleton_iff.mp lastSame
      have isKeyword : head.kind = .keyword word := kind_of_lexeme_eq isHead
      have isAssign : token.kind = .operator .assign := kind_of_lexeme_eq isEquals
      have noMain : word ≠ .mainWord := by
        rintro rfl
        cases isFun
      have isForm : headForm word = .functionParameters := by
        cases word <;> first | rfl | cases isFun
      have term : Term (headForm word) declared tree := by
        rw [isForm]
        exact .named named
      obtain ⟨_, _, rfl⟩ := term.nonempty
      obtain ⟨start, taken, rfl, _, _⟩ := List.map_eq_cons_iff.mp namedSame
      have fewer : nodes.length ≤ done.length := by
        have bound := sequence.length_le Grammar.Statement.starts_keyword
        rwa [← doneSame, List.length_map] at bound
      obtain ⟨count, isCount⟩ : ∃ count, (done ++ head :: (start :: taken ++ [token]) ++
          opening :: inside).length = count + 1 + nodes.length := by
        refine ⟨done.length - nodes.length + taken.length + inside.length + 3, ?_⟩
        simp only [List.length_append, List.length_cons, List.length_nil]
        omega
      have once : nodes.countP Node.isMain + (none : Option Location).toList.length ≤ 1 := by
        simpa using oneMain
      obtain ⟨found, entry, _, ran⟩ := @statements_sequence none source []
        (head :: start :: (taken ++ token :: opening :: inside)) (count + 1) done nodes earlier
        sequence doneSame (ends_of_keyword isKeyword) once
      have fails := function_unclosed source entry (done.reverse ++ []) isKeyword noMain term
        namedSame isAssign isBrace inners cutOff
      refine fails.of_fails fun error failed => ?_
      have whole : done ++ head :: (start :: taken ++ [token]) ++ opening :: inside =
          done ++ head :: start :: (taken ++ token :: opening :: inside) := by simp
      unfold Fails
      rw [isCount, whole, ran]
      obtain ⟨behind, failed⟩ := failed
      refine ⟨behind, bind_of_error ?_⟩
      exact (bind_of_ok advance_cons).trans (bind_of_error failed)

private theorem derivation_of_isOk {tokens : List Token}
    (accepted : (program (.ofTokens source tokens)).1.isOk = true) :
    ∃ node, Program (tokens.map Token.lexeme) node := by
  cases ran : (program (.ofTokens source tokens)).1 with
  | ok node => exact ⟨node, program_sound ran⟩
  | error error =>
      rw [ran] at accepted
      cases accepted

/-- What becomes of a program that is cut off inside a block: it waits for more at the opening
brace, unless the cut is directly before the equals sign of a declaration. -/
theorem program_unclosed_iff (source other : Source) (front inside rest : List Token)
    (opening : Token) (isBrace : opening.kind = .openBrace)
    (unclosed : ∀ token ∈ inside, token.kind ≠ .closeBrace)
    (accepted : (program (.ofTokens source (front ++ opening :: inside ++ rest))).1.isOk = true) :
    ((program (.ofTokens other (front ++ opening :: inside))).1 =
        .error (.incomplete opening.position) ↔
      ¬∃ header, Header header ∧ header <:+ inside.map Token.lexeme) ∧
    ((∃ header, Header header ∧ header <:+ inside.map Token.lexeme) →
      ∃ fault, fault.expected = [.assignmentExpression] ∧
        (program (.ofTokens other (front ++ opening :: inside))).1 =
          .error (.invalidNode fault)) := by
  obtain ⟨node, derivation⟩ := derivation_of_isOk accepted
  have split : (front ++ opening :: inside ++ rest).map Token.lexeme =
      front.map Token.lexeme ++ opening.lexeme ::
        (inside.map Token.lexeme ++ rest.map Token.lexeme) := by simp
  rw [split] at derivation
  cases derivation with
  | statements place items oneMain =>
      obtain ⟨opened, closed⟩ := items.opened oneMain rfl isBrace
      obtain ⟨items, trees, inners, cutOff⟩ := items_of_closed closed unclosed
      have fails := statements_unclosed other opened isBrace inners cutOff
      have refused : (∃ header, Header header ∧ header <:+ inside.map Token.lexeme) →
          ∃ fault, fault.expected = [.assignmentExpression] ∧
            (program (.ofTokens other (front ++ opening :: inside))).1 =
              .error (.invalidNode fault) := by
        intro ending
        obtain ⟨fault, expected, failed⟩ := fails.1 ending
        exact ⟨fault, expected, program_fails other _ failed⟩
      refine ⟨⟨?_, ?_⟩, refused⟩
      · intro incomplete ending
        obtain ⟨fault, _, failed⟩ := refused ending
        rw [incomplete] at failed
        cases failed
      · intro noHeader
        exact program_fails other _ (fails.2 noHeader)

/-- In `fun f = { let x = y }` a cut behind the second equals sign waits for more. -/
theorem program_unclosed_at_equals :
    let front : List Token := [⟨.keyword .funWord, "fun", ⟨1, 0, 0, 3⟩⟩,
      ⟨.identifier, "f", ⟨1, 4, 4, 5⟩⟩, ⟨.operator .assign, "=", ⟨1, 6, 6, 7⟩⟩]
    let opening : Token := ⟨.openBrace, "\x7b", ⟨1, 8, 8, 9⟩⟩
    let inside : List Token := [⟨.keyword .letWord, "let", ⟨1, 10, 10, 13⟩⟩,
      ⟨.identifier, "x", ⟨1, 14, 14, 15⟩⟩, ⟨.operator .assign, "=", ⟨1, 16, 16, 17⟩⟩]
    (program (.ofTokens (.ofString "") (front ++ opening :: inside))).1 =
      .error (.incomplete ⟨1, 8⟩) := by
  intro front opening inside
  have noHeader : ¬∃ header, Header header ∧ header <:+ inside.map Token.lexeme := by
    rintro ⟨header, isHeader, ending⟩
    have plain : ∀ lexeme ∈ [inside[1].lexeme, inside[2].lexeme],
        lexeme.kind.governs = false := by decide
    have whole := isHeader.eq_of_suffix plain ending
    subst whole
    cases isHeader with
    | binding text declared => cases declared
  let rest : List Token := [⟨.identifier, "y", ⟨1, 18, 18, 19⟩⟩, ⟨.closeBrace, "\x7d", ⟨1, 20, 20, 21⟩⟩]
  exact (program_unclosed_iff (.ofString "") (.ofString "") front inside rest opening rfl
    (by decide) (by decide +kernel)).1.mpr noHeader

/-- A block that is cut off is not always waited for: it is not behind the name that a declaration
declares. -/
theorem not_program_unclosed_at_name :
    ¬∀ (source : Source) (front inside rest : List Token) (opening : Token),
      opening.kind = .openBrace → (∀ token ∈ inside, token.kind ≠ .closeBrace) →
      (program (.ofTokens source (front ++ opening :: inside ++ rest))).1.isOk = true →
      (program (.ofTokens source (front ++ opening :: inside))).1 =
        .error (.incomplete opening.position) := by
  intro always
  have incomplete := always (.ofString "")
    [⟨.keyword .funWord, "fun", ⟨1, 0, 0, 3⟩⟩, ⟨.identifier, "f", ⟨1, 4, 4, 5⟩⟩,
      ⟨.operator .assign, "=", ⟨1, 6, 6, 7⟩⟩]
    [⟨.keyword .letWord, "let", ⟨1, 10, 10, 13⟩⟩, ⟨.identifier, "x", ⟨1, 14, 14, 15⟩⟩]
    [⟨.operator .assign, "=", ⟨1, 16, 16, 17⟩⟩, ⟨.identifier, "y", ⟨1, 18, 18, 19⟩⟩,
      ⟨.closeBrace, "\x7d", ⟨1, 20, 20, 21⟩⟩]
    ⟨.openBrace, "\x7b", ⟨1, 8, 8, 9⟩⟩ rfl (by decide) (by decide +kernel)
  have waits := congrArg
    (fun outcome : Except ParseError Node =>
      match outcome with
      | .error error => error.isIncomplete
      | .ok _ => false) incomplete
  revert waits
  decide +kernel

end SprigCompiler.Parse
