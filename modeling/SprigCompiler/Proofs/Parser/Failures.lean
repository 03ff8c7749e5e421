import SprigCompiler.Proofs.Parser.Accounting
import SprigCompiler.Proofs.Parser.Blame

/-!
The failures of the parser.

Every function of the parser explains its failures, by induction on the fuel that they share.  Only
main declarations need more: a second one is refused at its keyword, and there is exactly one main
keyword among the tokens in front of it.
-/

namespace SprigCompiler

variable {token : Token} {tokens recent : List Token} {node : Node} {nodes : List Node}

namespace Parse

variable {fuel : Nat}

private theorem explains_literal (isMember : token ∈ recent) : Explains recent (literal token) := by
  unfold literal
  split
  · exact .pure _
  · split
    · exact .pure _
    · exact .unexpected isMember
  · exact .pure _
  · exact .unexpected isMember

private theorem explains_atom (isMember : token ∈ recent) : Explains recent (atom token) := by
  unfold atom
  split
  · exact .pure _
  · exact explains_literal isMember

private theorem explains_argumentRow (count : Nat) (recent : List Token) :
    Explains recent (argumentRow count) := by
  induction count generalizing recent with
  | zero => exact .pure _
  | succ count inductionHypothesis =>
      unfold argumentRow
      refine .takeIf_bind (.pure _) fun token _ => ?_
      refine .check_bind (explains_atom (by simp)) (yields_atom token) fun argument _ => ?_
      exact .bind (inductionHypothesis _) (yields_argumentRow count) fun _ _ _ => .pure _

private theorem explains_argumentsUpTo (closing : TokenKind) (count : Nat) (recent : List Token) :
    Explains recent (argumentsUpTo closing count) := by
  induction count generalizing recent with
  | zero => exact .unexpectedEnd
  | succ count inductionHypothesis =>
      unfold argumentsUpTo
      refine .next_bind fun token => ?_
      split
      · refine .check_bind (explains_atom (by simp)) (yields_atom token) fun argument _ => ?_
        refine .next_bind fun separator => ?_
        split
        · exact .pure _
        · split
          · exact .bind (inductionHypothesis _) (yields_argumentsUpTo closing count)
              fun _ _ _ => .pure _
          · exact .unexpected (by simp)
      · exact .unexpected (by simp)

private theorem explains_delimitedArguments (closing : TokenKind) (recent : List Token) :
    Explains recent (delimitedArguments closing) := by
  unfold delimitedArguments
  refine .next_bind fun opener => .takeIf_bind ?_ fun closer _ => .pure _
  exact .look_bind (fun _ => ⟨_, rfl⟩) fun count => explains_argumentsUpTo closing count _

private theorem explains_named {head : Token} (isName : head.kind = .identifier) :
    Explains [head] (named head) := by
  have name : AllPlaced [head] [.identifier head.text head.location] :=
    (Built.leaf (leaf_of_isName isName)).placed
  unfold named
  refine .look_bind (fun _ => ⟨_, rfl⟩) fun cursor => ?_
  dsimp only
  refine .look_bind (fun _ => ⟨_, rfl⟩) fun peeked => ?_
  split
  · rename_i closing _
    refine .bind (explains_delimitedArguments closing _) (yields_delimitedArguments closing) ?_
    rintro taken ⟨arguments, last⟩ ⟨opener, _, rfl, inside, closer, rfl, _, _, flat⟩
    refine .build (.cons (name.mono ?_) (flat.built.placed.mono ?_)) nofun
    · exact (List.prefix_append [head] _).isInfix
    · exact ⟨[head, opener], [closer], by simp⟩
  · refine .look_bind (fun _ => ⟨_, rfl⟩) fun count => ?_
    refine .bind (explains_argumentRow count _) (yields_argumentRow count) ?_
    intro taken arguments leaves
    split
    · exact .pure _
    · have placed := (Flat.of_leaves leaves).built.placed
      refine .build (.cons (name.mono ?_) (placed.mono ?_)) nofun
      · exact (List.prefix_append [head] _).isInfix
      · exact (List.suffix_append [head] _).isInfix

private theorem explains_operand (head : Token) : Explains [head] (operand head) := by
  by_cases isName : head.kind = .identifier
  · rw [operand_eq_named isName]
    exact explains_named isName
  · rw [operand_eq_literal isName]
    exact explains_literal List.mem_cons_self

private theorem explains_unionMembers (count : Nat) (recent : List Token) :
    Explains recent (unionMembers count) := by
  induction count generalizing recent with
  | zero => exact .pure _
  | succ count inductionHypothesis =>
      unfold unionMembers
      refine .takeIf_bind (.pure _) fun token _ => ?_
      refine .bind (.extend recent (explains_operand token)) (yields_operand token) ?_
      intro taken member _
      refine .takeIf_bind (.pure _) fun bar _ => ?_
      exact .bind (inductionHypothesis _) (yields_unionMembers count) fun _ _ _ => .pure _

private theorem explains_union {first : Node} (placed : AllPlaced recent [first]) :
    Explains recent (union first) := by
  unfold union
  refine .look_bind (fun _ => ⟨_, rfl⟩) fun count => ?_
  refine .bind (explains_unionMembers count _) (yields_unionMembers count) ?_
  intro taken members built
  refine .build (.cons (placed.mono ?_) (built.placed.mono ?_)) nofun
  · exact (List.prefix_append recent _).isInfix
  · exact (List.suffix_append recent _).isInfix

private theorem explains_blockOf {opening : Token} {statements : Parse (List Node × Location)}
    (body : Explains [opening] statements) (yields : Yields statements (Closed .closeBrace Built)) :
    Explains [opening] (blockOf opening statements) := by
  unfold blockOf
  refine .bind body yields ?_
  rintro taken ⟨nodes, last⟩ ⟨inside, closer, rfl, _, _, built⟩
  exact .build (built.placed.mono ⟨[opening], [closer], by simp⟩) nofun

structure AllExplains (fuel : Nat) : Prop where
  statement : ∀ head, head.kind ≠ .keyword .mainWord → Explains [head] (statementWith fuel head)
  block : ∀ opening, opening.kind = .openBrace → ∀ recent, opening ∈ recent →
    Explains recent (blockStatementsWith fuel opening.position)
  expression : ∀ head, Explains [head] (expressionWith fuel head)
  tail : ∀ recent left, Flat recent [left] → Explains recent (tailWith fuel left)

private theorem explains_zero : AllExplains 0 where
  statement _ _ := .unexpectedEnd
  block _ opens _ isMember := .incomplete isMember opens
  expression _ := .unexpectedEnd
  tail _ _ _ := .pure _

private theorem expressionWith_explains (explains : AllExplains fuel) (head : Token) :
    Explains [head] (expressionWith (fuel + 1) head) := by
  rw [expressionWith_succ]
  split
  · rename_i isBrace
    exact explains_blockOf (explains.block head isBrace _ List.mem_cons_self)
      ((builds fuel).block head.position)
  · exact .bind (explains_operand head) (yields_operand head) fun taken left flat =>
      explains.tail _ left flat

private theorem binding_explains (explains : AllExplains fuel) (sign : Operator) {left : Node}
    (placed : AllPlaced recent [left]) :
    Explains recent (binding sign left (expressionWith fuel)) := by
  unfold binding
  split
  · exact explains_union placed
  · refine .next_bind fun head => ?_
    refine .bind (.extend recent (explains.expression head)) ((builds fuel).expression head) ?_
    intro taken right rights
    refine .build (.cons (placed.mono ?_) (rights.placed.mono ?_)) nofun
    · exact ⟨[], head :: taken, by simp⟩
    · exact ⟨recent, [], by simp⟩

private theorem tailWith_explains (explains : AllExplains fuel) {left : Node}
    (flat : Flat recent [left]) :
    Explains recent (tailWith (fuel + 1) left) := by
  rw [tailWith_succ]
  refine .bind (.of_succeeds .takeOperator) yields_takeOperator fun taken found isOperator => ?_
  have placed : AllPlaced (recent ++ taken) [left] :=
    flat.built.placed.mono (List.prefix_append recent _).isInfix
  cases found with
  | none => exact .pure _
  | some sign =>
      cases arithmetic : MathOperator.ofOperator? sign with
      | none =>
          simp only [arithmetic]
          exact binding_explains explains sign placed
      | some operator =>
          simp only [arithmetic]
          refine .next_bind fun head => ?_
          refine .bind (.extend _ (expressionWith_explains explains head))
            ((builds (fuel + 1)).expression head) fun more right rights => ?_
          refine .build (.cons (placed.mono ?_) (rights.placed.mono ?_)) nofun
          · exact ⟨[], head :: more, by simp⟩
          · exact ⟨recent ++ taken, [], by simp⟩

private theorem explains_statementOf {form : StatementForm} {head : Token} {value : Parse Node}
    (explains : Explains [head] value)
    (yields : Yields value fun taken node => Built taken [node]) :
    Explains [head] (statementOf form head value) := by
  unfold statementOf
  refine .bind explains yields fun taken node built => ?_
  exact .build (built.placed.mono (List.suffix_append [head] _).isInfix) nofun

private theorem explains_calledValue {value : Node} (placed : AllPlaced recent [value]) :
    Explains recent (calledValue value) := by
  unfold calledValue
  split
  · exact .build placed nofun
  · exact .pure _

private theorem statementWith_explains (explains : AllExplains fuel) {head : Token}
    (noMain : head.kind ≠ .keyword .mainWord) :
    Explains [head] (statementWith (fuel + 1) head) := by
  cases kind : head.kind with
  | keyword word =>
      have other : word ≠ .mainWord := fun isMain => noMain (isMain ▸ kind)
      rw [statementWith_of_keyword kind other]
      refine explains_statementOf (.next_bind fun start => ?_) (.next_bind (builds fuel).expression)
      exact .extend [head] (explains.expression start)
  | openBrace =>
      rw [statementWith_brace kind]
      exact explains_blockOf (explains.block head kind _ List.mem_cons_self)
        ((builds fuel).block head.position)
  | _ =>
      rw [statementWith_other (by rw [kind]; rfl) (by rw [kind]; exact nofun)]
      exact .unexpected List.mem_cons_self

private theorem explains_main (fuel : Nat) (explains : AllExplains fuel) (head : Token) :
    Explains [head]
      (statementOf .main head (do calledValue (← expressionWith fuel (← next)))) := by
  refine explains_statementOf (.next_bind fun start => ?_) (.next_bind fun start => ?_)
  · refine .bind (.extend [head] (explains.expression start)) ((builds fuel).expression start) ?_
    intro taken value built
    exact explains_calledValue (built.placed.mono ⟨[head], [], by simp⟩)
  · exact .bind ((builds fuel).expression start) fun taken value built => yields_calledValue built

private theorem blockStatementsWith_explains (explains : AllExplains fuel) {opening : Token}
    (opens : opening.kind = .openBrace) (isMember : opening ∈ recent) :
    Explains recent (blockStatementsWith (fuel + 1) opening.position) := by
  have goesOn : ∀ token, token.kind ≠ .keyword .mainWord → Explains (recent ++ [token])
      ((statementWith fuel token).mapError (.insideBlock opening.position) >>=
        fun first => blockStatementsWith fuel opening.position >>= fun found =>
          pure (first :: found.1, found.2)) := by
    intro token noMain
    have isEarlier : opening ∈ recent ++ [token] := List.mem_append_left _ isMember
    refine .bind (((explains.statement token noMain).extend recent).insideBlock isEarlier opens)
      (((builds fuel).statement token).mapError _) fun taken first _ => ?_
    refine .bind (explains.block opening opens _ (List.mem_append_left _ isEarlier))
      ((builds fuel).block _) fun _ _ _ => .pure _
  unfold blockStatementsWith
  refine .advance_bind (.incomplete isMember opens) fun token => ?_
  dsimp only
  split
  · exact .pure _
  · exact goesOn token (by simp_all)
  · exact goesOn token (by simp_all)
  · exact goesOn token (by simp_all)
  · exact .incomplete (List.mem_append_left _ isMember) opens

private theorem explains (fuel : Nat) : AllExplains fuel := by
  induction fuel with
  | zero => exact explains_zero
  | succ fuel inductionHypothesis =>
      exact {
        statement := fun _ noMain => statementWith_explains inductionHypothesis noMain
        block := fun _ opens _ isMember =>
          blockStatementsWith_explains inductionHypothesis opens isMember
        expression := expressionWith_explains inductionHypothesis
        tail := fun _ _ => tailWith_explains inductionHypothesis }

end Parse

/-! ### Main keywords -/

def Token.isMain (token : Token) : Bool := token.kind == .keyword .mainWord

def BlamesSecondMain (tokens : List Token) (error : ParseError) : Prop :=
  ∃ before token after, tokens = before ++ token :: after ∧ token.isMain = true ∧
    before.countP Token.isMain = 1 ∧ error = .duplicateEntry token.position

private theorem Opens.isMain_eq (opens : Opens token node) : token.isMain = node.isMain := by
  have opened := opens.kind
  unfold Token.isMain
  cases kind : token.kind with
  | keyword word =>
      rw [kind] at opened
      have isKind : word.declared = node.kind := Option.some.inj opened
      cases word with
      | mainWord =>
          cases node with
          | statement form value location =>
              cases form <;> first | rfl | cases isKind
          | application form => cases form <;> cases isKind
          | _ => cases isKind
      | _ => exact (Node.isMain_eq_false (by rw [← isKind]; exact nofun)).symm
  | openBrace =>
      rw [kind] at opened
      have isKind : .blockStatement = node.kind := Option.some.inj opened
      exact (Node.isMain_eq_false (by rw [← isKind]; exact nofun)).symm
  | _ =>
      rw [kind] at opened
      cases opened

private theorem countP_main_of_opens (opens : List.Forall₂ Opens tokens nodes) :
    tokens.countP Token.isMain = nodes.countP Node.isMain := by
  induction opens with
  | nil => rfl
  | cons first _ inductionHypothesis =>
      rw [List.countP_cons, List.countP_cons, first.isMain_eq, inductionHypothesis]

/-- Trees have as many main declarations as there are main keywords among their tokens. -/
theorem Built.countP_main (built : Built tokens nodes) :
    tokens.countP Token.isMain = Node.mains nodes := by
  have words : (tokens.filter (·.kind.isKeyword)).countP Token.isMain =
      tokens.countP Token.isMain := by
    rw [List.countP_filter]
    refine List.countP_congr fun token _ => ?_
    unfold Token.isMain
    cases token.kind <;> simp [TokenKind.isKeyword]
  have statements : ((Node.listed nodes).filter (·.isStatement)).countP Node.isMain =
      Node.mains nodes := by
    rw [List.countP_filter]
    refine List.countP_congr fun node _ => ?_
    cases node <;> simp [Node.isMain, Node.isStatement]
  rw [← words, ← statements]
  exact countP_main_of_opens built.accounts.statements

namespace Parse

variable {source : Source} {entry : Option Location} {past ahead : List Token} {head : Token}
  {behind : Parser} {error : ParseError} {count : Nat}

private theorem statement_blames
    (failed : statement head (.between source entry (head :: past) ahead) =
      (.error error, behind)) :
    Blames source (past.reverse ++ head :: ahead) error ∨
      head.isMain = true ∧ entry.isSome = true ∧ error = .duplicateEntry head.position := by
  have among : past.reverse ++ [head] ++ ahead = past.reverse ++ head :: ahead := by simp
  by_cases isMain : head.kind = .keyword .mainWord
  · cases entry with
    | some location =>
        rw [statement_duplicate isMain] at failed
        cases failed
        exact .inr ⟨beq_iff_eq.mpr isMain, rfl, rfl⟩
    | none =>
        rw [statement_of_main isMain, bind_of_ok enterMain_none] at failed
        have explained : Explains [head] (mainBehind head) :=
          .look_bind (fun _ => ⟨_, rfl⟩) fun fuel => explains_main _ (explains _) head
        exact .inl (among ▸ explained.blames failed)
  · have explained : Explains [head] (statement head) :=
      .look_bind (fun _ => ⟨_, rfl⟩) fun fuel => (explains fuel).statement head isMain
    exact .inl (among ▸ explained.blames failed)

/-- A statement takes its own main keyword, if it starts with one, and no other. -/
theorem statement_countP_main {taken : List Token} {node : Node}
    (ran : statement head (.between source entry past ahead) = (.ok node, behind))
    (built : Built (head :: taken) [node]) :
    (head :: taken).countP Token.isMain = if head.isMain then 1 else 0 := by
  obtain ⟨noProgram, starts⟩ := (ensures_isMain head).result ran
  have allowed := ((ensures_statement head).result ran).allowed
  have counted := built.countP_main
  rw [Node.mains_of_allowed allowed noProgram] at counted
  cases isMain : head.isMain with
  | true =>
      rw [List.countP_cons_of_pos isMain] at counted ⊢
      rw [if_pos rfl]
      split at counted <;> omega
  | false =>
      have noMain : node.isMain = false := by
        rw [← Bool.not_eq_true]
        intro isMainNode
        rw [Token.isMain, starts isMainNode] at isMain
        cases isMain
      rw [counted, noMain]

/-- Behind a statement as many main keywords have been taken as entry points are remembered. -/
theorem statement_counted {taken : List Token} {node : Node}
    (counted : past.countP Token.isMain = entry.toList.length)
    (ran : statement head (.between source entry (head :: past) ahead) = (.ok node, behind))
    (built : Built (head :: taken) [node]) :
    (taken.reverse ++ head :: past).countP Token.isMain =
      (entryAfter entry head).toList.length := by
  have whole : (taken.reverse ++ head :: past).countP Token.isMain =
      (head :: taken).countP Token.isMain + past.countP Token.isMain := by
    rw [List.countP_append, List.countP_reverse, List.countP_cons, List.countP_cons]
    omega
  rw [whole, statement_countP_main ran built, counted]
  unfold entryAfter Token.isMain
  by_cases isMain : head.kind = .keyword .mainWord
  · rw [if_pos isMain, if_pos (beq_iff_eq.mpr isMain)]
    cases entry with
    | none => rfl
    | some location =>
        rw [statement_duplicate isMain] at ran
        cases ran
  · rw [if_neg isMain, if_neg (mt beq_iff_eq.mp isMain), Nat.zero_add]

private theorem statements_blames (counted : past.countP Token.isMain = entry.toList.length)
    (failed : statements count (.between source entry past ahead) = (.error error, behind)) :
    Blames source (past.reverse ++ ahead) error ∨
      BlamesSecondMain (past.reverse ++ ahead) error := by
  induction count generalizing entry past ahead with
  | zero => cases failed
  | succ count inductionHypothesis =>
      cases ahead with
      | nil =>
          rw [statements_nil] at failed
          cases failed
      | cons head ahead =>
          rw [statements_cons] at failed
          cases ran : statement head (.between source entry (head :: past) ahead) with
          | mk outcome middle =>
              cases outcome with
              | error early =>
                  rw [bind_of_error ran] at failed
                  cases failed
                  refine (statement_blames ran).imp_right ?_
                  rintro ⟨isMain, isSome, rfl⟩
                  refine ⟨past.reverse, head, ahead, rfl, isMain, ?_, rfl⟩
                  obtain ⟨location, rfl⟩ := Option.isSome_iff_exists.mp isSome
                  rw [List.countP_reverse, counted]
                  rfl
              | ok node =>
                  obtain ⟨found, taken, rest, rfl, rfl, built⟩ :=
                    (yields_statement head).behind ran
                  obtain ⟨_, _, _, enters⟩ := statement_enters ran
                  have isFound : found = entryAfter entry head := congrArg Parser.entryPoint enters
                  have countedRest := statement_counted counted ran built
                  rw [← isFound] at countedRest
                  rw [bind_of_ok ran] at failed
                  cases ranRest : statements count
                      (.between source found (taken.reverse ++ head :: past) rest) with
                  | mk others last =>
                      cases others with
                      | ok nodes =>
                          rw [bind_of_ok ranRest] at failed
                          cases failed
                      | error late =>
                          rw [bind_of_error ranRest] at failed
                          cases failed
                          have blames := inductionHypothesis countedRest ranRest
                          simpa using blames

/-- A program that cannot be read has something to blame among its tokens. -/
theorem program_blames {tokens : List Token}
    (failed : (program (.between source none [] tokens)).1 = .error error) :
    Blames source tokens error ∨ BlamesSecondMain tokens error := by
  unfold program at failed
  rw [bind_of_ok ahead_between] at failed
  cases ran : statements tokens.length (.between source none [] tokens) with
  | mk outcome middle =>
      cases outcome with
      | error early =>
          rw [bind_of_error ran] at failed
          cases failed
          exact statements_blames rfl ran
      | ok body =>
          obtain ⟨found, taken, rest, rfl, rfl, built⟩ := (yields_statements _).behind ran
          rw [bind_of_ok ran] at failed
          have explained : Explains taken (build (.program body source.extent)) :=
            .build built.placed nofun
          have blames : Blames source ([].reverse ++ taken ++ rest) error :=
            explained.blames (Prod.ext failed rfl)
          exact .inl blames

end Parse

end SprigCompiler
