import SprigCompiler.Proofs.Parser.Completeness

/-!
Programs: the parser accepts exactly the grammar.
-/

namespace SprigCompiler.Parse

open Grammar (Term Named Expression Sequence Main Statement Program)

variable {source : Source} {entry : Option Location} {past ahead rest : List Token}
  {token head : Token} {behind : Parser} {node : Node} {fuel : Nat}

theorem enterMain_none :
    enterMain head (.between source none past ahead) =
      (.ok (), .between source (some head.location) past ahead) := rfl

theorem enterMain_some (location : Location) :
    enterMain head (.between source (some location) past ahead) =
      (.error (.duplicateEntry head.position), .between source (some location) past ahead) := rfl

private theorem sound_call (text : String) (place extent : Location) :
    (Node.application .call (.identifier text place) [] extent).firstFault? = none :=
  (Grammar.Arguments.empty "(" ")" (.parens .call)).sound text place extent

theorem calledValue_identifier (text : String) (place : Location) (parser : Parser) :
    calledValue (.identifier text place) parser =
      (.ok (.application .call (.identifier text place) [] place), parser) :=
  build_of_sound (sound_call text place place) parser

theorem calledValue_other (other : node.kind ≠ .identifier) (parser : Parser) :
    calledValue node parser = (.ok node, parser) := by
  cases node with
  | identifier => contradiction
  | _ => rfl

/-- A name or a call behind the keyword is a main declaration, and a bare name is called. -/
theorem main_of_expression {lexemes : List Lexeme} {value called : Node} {place : Location}
    {parser : Parser} (text : String) (derivation : Expression .call .call lexemes value)
    (calls : calledValue value parser = (.ok called, behind))
    (sound : (Node.statement .main called place).firstFault? = none) :
    behind = parser ∧ Main (⟨.keyword .mainWord, text⟩ :: lexemes) (.statement .main called place) := by
  unfold Node.firstFault? at sound
  rw [Option.or_eq_none_iff, Node.fault?_eq_none_iff] at sound
  have admitted : called.kind ∈ [NodeKind.identifier, ApplicationForm.call.kind] := sound.1
  by_cases isName : value.kind = .identifier
  · cases value with
    | identifier name location =>
        rw [calledValue_identifier] at calls
        cases calls
        cases derivation with
        | term term =>
            cases term.name_of_kind rfl
            exact ⟨rfl, .name text name location location place⟩
        | block block => cases block
    | statement form => cases form <;> cases isName
    | application form => cases form <;> cases isName
    | _ => cases isName
  · rw [calledValue_other isName] at calls
    cases calls
    refine ⟨rfl, ?_⟩
    cases derivation with
    | term term =>
        cases term.named_of_kind admitted with
        | name => exact absurd rfl isName
        | application name location extent arguments =>
            exact .application text name location extent place arguments
    | math => simp [Node.kind, ApplicationForm.kind] at admitted
    | assignment => simp [Node.kind, ApplicationForm.kind] at admitted
    | union => simp [Node.kind, ApplicationForm.kind] at admitted
    | block block =>
        cases block
        simp [Node.kind, ApplicationForm.kind] at admitted

theorem statementWith_main (isMain : head.kind = .keyword .mainWord) :
    statementWith (fuel + 1) head = (do
      enterMain head
      statementOf .main head (do calledValue (← expressionWith fuel (← next)))) := by
  unfold statementWith
  rw [isMain]

private theorem main_sound (isMain : head.kind = .keyword .mainWord)
    (ran : statementWith (fuel + 1) head (.between source entry (head :: past) ahead) =
      (.ok node, behind)) :
    entry = none ∧ Took source (some head.location) (head :: past) ahead behind fun lexemes =>
      Main (head.lexeme :: lexemes) node := by
  rw [statementWith_main isMain] at ran
  obtain ⟨_, middle, entered, ran⟩ := bind_eq_ok ran
  cases entry with
  | some location =>
      rw [enterMain_some] at entered
      cases entered
  | none =>
      rw [enterMain_none] at entered
      cases entered
      unfold statementOf at ran
      obtain ⟨called, middle, read, ran⟩ := bind_eq_ok ran
      obtain ⟨sound, rfl, rfl⟩ := build_eq_ok ran
      obtain ⟨start, middle, stepped, read⟩ := bind_eq_ok read
      obtain ⟨ahead, rfl, rfl⟩ := next_eq_ok stepped
      obtain ⟨value, middle, read, calls⟩ := bind_eq_ok read
      obtain ⟨taken, rest, rfl, rfl, expression⟩ := (Parse.sound fuel).expression read
      rw [governing_keyword isMain, formAfter_keyword isMain] at expression
      obtain ⟨rfl, main⟩ := main_of_expression head.text expression calls sound
      refine ⟨rfl, start :: taken, rest, by simp, by simp, ?_⟩
      rw [lexeme_eq isMain]
      exact main

theorem statement_between :
    statement head (.between source entry past ahead) =
      statementWith (2 * ahead.length + 1) head (.between source entry past ahead) :=
  bind_of_ok (bind_of_ok ahead_between)

theorem statementWith_brace (isBrace : head.kind = .openBrace) :
    statementWith (fuel + 1) head = blockOf head (blockStatementsWith fuel head.position) := by
  unfold statementWith
  rw [isBrace]

theorem statementWith_other (noKeyword : head.kind.isKeyword = false)
    (noBrace : head.kind ≠ .openBrace) : statementWith (fuel + 1) head = unexpected head := by
  unfold statementWith
  cases kind : head.kind with
  | keyword word =>
      rw [kind] at noKeyword
      cases noKeyword
  | openBrace => contradiction
  | _ => rfl

private theorem isMain_of_main {lexemes : List Lexeme} (derivation : Main lexemes node) :
    node.isMain = true := by
  cases derivation <;> rfl

def entryBehind (entry : Option Location) (head : Token) (node : Node) : Option Location :=
  if node.isMain then some head.location else entry

theorem statement_sound
    (ran : statement head (.between source entry (head :: past) ahead) = (.ok node, behind))
    (admitted : node.kind ∈ NodeKind.program.admissible .body) :
    (node.isMain = true → entry = none) ∧
      Took source (entryBehind entry head node) (head :: past) ahead behind fun lexemes =>
        Statement (head.lexeme :: lexemes) node := by
  rw [statement_between] at ran
  by_cases isBrace : head.kind = .openBrace
  · rw [statementWith_brace isBrace] at ran
    unfold blockOf at ran
    obtain ⟨_, middle, _, ran⟩ := bind_eq_ok ran
    obtain ⟨_, rfl, _⟩ := build_eq_ok ran
    simp [Node.kind, NodeKind.admissible] at admitted
  · cases kind : head.kind with
    | keyword word =>
        by_cases isMain : word = .mainWord
        · subst isMain
          obtain ⟨rfl, taken, rest, rfl, rfl, main⟩ := main_sound kind ran
          have marked := isMain_of_main main
          unfold entryBehind
          rw [if_pos marked]
          exact ⟨fun _ => rfl, taken, rest, rfl, rfl, .main main⟩
        · rw [statementWith_of_keyword kind isMain] at ran
          obtain ⟨taken, rest, rfl, rfl, value, place, rfl, sound, expression⟩ :=
            statementOf_sound (Parse.sound _).expression kind ran
          have unmarked : (Node.statement (formOf word) value place).isMain = false := by
            cases word <;> first | rfl | contradiction
          unfold entryBehind
          rw [unmarked]
          refine ⟨fun marked => absurd marked Bool.false_ne_true, taken, rest, rfl, rfl, ?_⟩
          rw [lexeme_eq kind]
          cases word with
          | mainWord => contradiction
          | typeWord => exact .type (Grammar.typeDeclaration_of_expression _ expression sound)
          | letWord => exact .binding (Grammar.letDeclaration_of_expression _ expression sound)
          | funWord =>
              exact .function rfl (Grammar.functionDeclaration_of_expression _ expression sound)
          | funcWord =>
              exact .function rfl (Grammar.functionDeclaration_of_expression _ expression sound)
          | returnWord => simp [Node.kind, formOf, StatementForm.kind, NodeKind.admissible] at admitted
    | openBrace => contradiction
    | _ =>
        rw [statementWith_other (by rw [kind]; rfl) isBrace] at ran
        cases ran

theorem statements_sound {count : Nat} {nodes : List Node}
    (ran : statements count (.between source entry past ahead) = (.ok nodes, behind))
    (enough : ahead.length ≤ count)
    (admitted : ∀ node ∈ nodes, node.kind ∈ NodeKind.program.admissible .body) :
    Sequence Statement (ahead.map Token.lexeme) nodes ∧
      nodes.countP Node.isMain + entry.toList.length ≤ 1 := by
  induction count generalizing entry past ahead nodes with
  | zero =>
      rw [List.length_eq_zero_iff.mp (Nat.le_zero.mp enough)]
      cases ran
      refine ⟨.nil, ?_⟩
      cases entry <;> simp
  | succ count inductionHypothesis =>
      unfold statements at ran
      cases ahead with
      | nil =>
          have ran := (bind_of_ok advance_nil).symm.trans ran
          cases ran
          refine ⟨.nil, ?_⟩
          cases entry <;> simp
      | cons head ahead =>
          have ran := (bind_of_ok advance_cons).symm.trans ran
          obtain ⟨first, middle, read, ran⟩ := bind_eq_ok ran
          obtain ⟨others, middle, readRest, ran⟩ := bind_eq_ok ran
          cases ran
          have admittedFirst := admitted first List.mem_cons_self
          obtain ⟨entered, taken, ahead, rfl, rfl, derivation⟩ :=
            statement_sound read admittedFirst
          have fewer : ahead.length ≤ count := by
            simp only [List.length_cons, List.length_append] at enough
            omega
          obtain ⟨derivations, once⟩ := inductionHypothesis readRest fewer
            fun node isMember => admitted node (List.mem_cons_of_mem _ isMember)
          constructor
          · rw [List.map_cons, List.map_append]
            exact .cons derivation derivations
          · rw [List.countP_cons]
            unfold entryBehind at once
            cases isMain : first.isMain with
            | false =>
                rw [isMain] at once
                simpa using once
            | true =>
                rw [isMain] at once
                rw [entered isMain]
                simpa using once

private theorem eq_of_alike_identifier {text : String} {place : Location}
    (alike : node.Alike (.identifier text place)) : ∃ there, node = .identifier text there := by
  unfold Node.Alike Node.unlocated at alike
  cases node with
  | identifier name location =>
      simp only [Node.relocated, Node.identifier.injEq, and_true] at alike
      exact ⟨location, by rw [alike]⟩
  | _ => simp [Node.relocated] at alike

/-- Behind its keyword a main declaration has a name with perhaps arguments, whose tree is called
if it is a bare name. -/
theorem named_of_main {lexemes : List Lexeme} {tree : Node} (derivation : Main lexemes tree) :
    ∃ text others named value place, lexemes = ⟨.keyword .mainWord, text⟩ :: others ∧
      tree = .statement .main value place ∧ Named .call others named ∧
      value.kind = .functionCallExpression ∧
      ∀ (node : Node) (parser : Parser), node.Alike named →
        ∃ called, calledValue node parser = (.ok called, parser) ∧ called.Alike value := by
  cases derivation with
  | name text name place extent whole =>
      refine ⟨text, _, .identifier name place, _, whole, rfl, rfl, .name name place, rfl, ?_⟩
      intro node parser alike
      obtain ⟨there, rfl⟩ := eq_of_alike_identifier alike
      exact ⟨_, calledValue_identifier name there parser,
        Node.alike_application .call there extent alike .nil⟩
  | application text name place extent whole arguments =>
      refine ⟨text, _, _, _, whole, rfl, rfl, .application name place extent arguments, rfl, ?_⟩
      intro node parser alike
      have noName : node.kind ≠ .identifier := by
        rw [alike.kind_eq]
        simp [Node.kind, ApplicationForm.kind]
      exact ⟨node, calledValue_other noName parser, alike⟩

private theorem main_complete (source : Source) (past rest : List Token) {taken : List Token}
    {tree : Node} {lexemes : List Lexeme} (derivation : Main lexemes tree)
    (same : (head :: taken).map Token.lexeme = lexemes) (ends : Ends rest)
    (enough : 2 * taken.length ≤ fuel) :
    ∃ node, statementWith fuel head (.between source none (head :: past) (taken ++ rest)) =
        (.ok node, .between source (some head.location) (taken.reverse ++ head :: past) rest) ∧
      node.Alike tree := by
  obtain ⟨text, others, named, value, place, rfl, rfl, name, isCall, calls⟩ :=
    named_of_main derivation
  obtain ⟨isHead, same⟩ := List.cons.inj same
  have isMain : head.kind = .keyword .mainWord := kind_of_lexeme_eq isHead
  have term : Term .call others named := .named name
  obtain ⟨_, _, rfl⟩ := term.nonempty
  obtain ⟨start, taken, rfl, _, _⟩ := List.map_eq_cons_iff.mp same
  simp only [List.length_cons] at enough
  obtain ⟨fuel, rfl⟩ : ∃ less, fuel = less + 1 := ⟨fuel - 1, by omega⟩
  have shorter : 2 * taken.length < fuel := by omega
  have inner : innerForm (governing (head :: past)) = .call := by
    rw [governing_keyword isMain]
    rfl
  obtain ⟨node, read, alike⟩ := term_complete .call source (some head.location) rest term same
    (formAfter_keyword isMain) inner ends shorter
  obtain ⟨called, callRan, calledAlike⟩ := calls node
    (.between source (some head.location) (taken.reverse ++ start :: head :: past) rest) alike
  have likeness := Node.alike_statement .main (head.location.through called.location) place
    calledAlike
  have sound : (Node.statement .main value place).firstFault? = none := by
    unfold Node.firstFault?
    rw [Option.or_eq_none_iff, Node.fault?_eq_none_iff, isCall]
    exact ⟨by decide, rfl⟩
  refine ⟨_, ?_, likeness⟩
  rw [statementWith_main isMain]
  apply (bind_of_ok enterMain_none).trans
  unfold statementOf
  apply (bind_of_ok ((bind_of_ok next_cons).trans ((bind_of_ok read).trans callRan))).trans
  refine (build_of_sound (likeness.firstFault?_eq_none_iff.mpr sound) _).trans ?_
  rw [List.reverse_cons, List.append_assoc]
  rfl

private theorem statement_complete (source : Source) (past rest : List Token) {taken : List Token}
    {tree : Node} {lexemes : List Lexeme} (derivation : Statement lexemes tree)
    (same : (head :: taken).map Token.lexeme = lexemes) (ends : Ends rest)
    (first : tree.isMain = true → entry = none) :
    ∃ node, statement head (.between source entry (head :: past) (taken ++ rest)) =
        (.ok node,
          .between source (entryBehind entry head tree) (taken.reverse ++ head :: past) rest) ∧
      node.Alike tree := by
  rw [statement_between]
  have enough : 2 * taken.length ≤ 2 * (taken ++ rest).length + 1 := by
    rw [List.length_append]
    omega
  unfold entryBehind
  cases derivation with
  | main main =>
      have marked := isMain_of_main main
      rw [first marked, if_pos marked]
      exact main_complete source past rest main same ends enough
  | type declaration =>
      have ran := type_complete source entry past rest declaration same ends enough
      cases declaration
      exact ran
  | binding declaration =>
      have ran := let_complete source entry past rest declaration same ends enough
      cases declaration
      exact ran
  | function isFun declaration =>
      have ran := function_complete isFun source entry past rest declaration same ends enough
      cases declaration
      exact ran

/-- Reading a program reads the statements that are ahead and then goes on behind them. -/
theorem statements_sequence (source : Source) (past rest : List Token) {count : Nat}
    {taken : List Token} {trees : List Node} {lexemes : List Lexeme}
    (derivation : Sequence Statement lexemes trees) (same : taken.map Token.lexeme = lexemes)
    (ends : Ends rest) (once : trees.countP Node.isMain + entry.toList.length ≤ 1) :
    ∃ nodes found, Node.AlikeAll nodes trees ∧
      statements (count + trees.length) (.between source entry past (taken ++ rest)) =
        (statements count >>= fun others => pure (nodes ++ others) : Parse (List Node))
          (.between source found (taken.reverse ++ past) rest) := by
  induction derivation generalizing past taken entry with
  | nil =>
      rw [List.map_eq_nil_iff.mp same]
      exact ⟨[], entry, .nil, (congrFun (bind_pure_eq _) _).symm⟩
  | @cons _ _ tree trees item items inductionHypothesis =>
      obtain ⟨word, text, others, rfl⟩ := item.starts_keyword
      obtain ⟨front, follow, rfl, frontSame, followSame⟩ := List.map_eq_append_iff.mp same
      obtain ⟨token, front, rfl, _, _⟩ := List.map_eq_cons_iff.mp frontSame
      have endsBehind : Ends (follow ++ rest) :=
        ends_of_sequence Grammar.Statement.starts_keyword items followSame ends
      rw [List.countP_cons] at once
      have first : tree.isMain = true → entry = none := by
        intro isMain
        rw [if_pos isMain] at once
        cases entry with
        | none => rfl
        | some location =>
            simp only [Option.toList_some, List.length_cons, List.length_nil] at once
            omega
      have onceBehind :
          trees.countP Node.isMain + (entryBehind entry token tree).toList.length ≤ 1 := by
        unfold entryBehind
        cases isMain : tree.isMain with
        | false => simpa [isMain] using once
        | true =>
            rw [isMain, first isMain] at once
            simpa using once
      obtain ⟨node, read, alike⟩ := statement_complete source past (follow ++ rest) item frontSame
        endsBehind first
      obtain ⟨nodes, found, alikeAll, ran⟩ := inductionHypothesis (front.reverse ++ token :: past)
        followSame onceBehind
      refine ⟨node :: nodes, found, .cons alike alikeAll, ?_⟩
      rw [List.append_assoc, List.cons_append, List.length_cons, ← Nat.add_assoc, statements]
      apply (bind_of_ok advance_cons).trans
      apply (bind_of_ok read).trans
      apply (bind_of_eq ran _).trans
      rw [bind_assoc_eq]
      simp only [List.reverse_append, List.reverse_cons, List.append_assoc, List.cons_append]
      rfl

theorem statements_nil (count : Nat) :
    statements count (.between source entry past []) =
      (.ok [], .between source entry past []) := by
  cases count with
  | zero => rfl
  | succ count =>
      unfold statements
      exact bind_of_ok advance_nil

/-! ### The grammar -/

theorem program_sound {tokens : List Token}
    (ran : (program (.ofTokens source tokens)).1 = .ok node) :
    Program (tokens.map Token.lexeme) node := by
  cases whole : program (.ofTokens source tokens) with
  | mk outcome behind =>
      rw [whole] at ran
      cases ran
      unfold program at whole
      rw [Parser.ofTokens_eq_between] at whole
      have ran := (bind_of_ok ahead_between).symm.trans whole
      obtain ⟨nodes, middle, read, ran⟩ := bind_eq_ok ran
      obtain ⟨place, middle, _, ran⟩ := bind_eq_ok ran
      obtain ⟨sound, rfl, _⟩ := build_eq_ok ran
      have admitted := (Node.faultAmong?_eq_none_iff _ _ _).mp sound
      obtain ⟨derivations, once⟩ := statements_sound read (Nat.le_refl _) admitted
      exact .statements place derivations (by simpa using once)

theorem program_complete {tokens : List Token} {tree : Node}
    (derivation : Program (tokens.map Token.lexeme) tree) :
    ∃ node, (program (.ofTokens source tokens)).1 = .ok node ∧ node.Alike tree := by
  generalize same : tokens.map Token.lexeme = lexemes at derivation
  cases derivation with
  | statements place items once =>
      rename_i trees
      have fewer : trees.length ≤ tokens.length := by
        have bound := items.length_le Grammar.Statement.starts_keyword
        rwa [← same, List.length_map] at bound
      obtain ⟨count, enough⟩ : ∃ count, tokens.length = count + trees.length :=
        Nat.exists_eq_add_of_le' fewer
      obtain ⟨nodes, found, alike, ran⟩ := statements_sequence source [] [] items same nofun
        (by simpa using once : trees.countP Node.isMain + (none : Option Location).toList.length ≤ 1)
      have likeness := Node.alike_program source.extent place alike
      have sound : (Node.program trees place).firstFault? = none :=
        (Node.faultAmong?_eq_none_iff _ _ _).mpr (items.kind_mem Grammar.Statement.kind_mem)
      refine ⟨.program nodes source.extent, ?_, likeness⟩
      have read := ran.trans (bind_of_ok (statements_nil count))
      rw [← enough, List.append_nil] at read
      have whole : program (.between source none [] tokens) =
          (.ok (.program nodes source.extent), .between source found (tokens.reverse ++ []) []) := by
        apply (bind_of_ok ahead_between).trans
        apply (bind_of_ok read).trans
        apply (bind_of_ok rfl).trans
        rw [List.append_nil nodes]
        exact build_of_sound (likeness.firstFault?_eq_none_iff.mpr sound) _
      rw [Parser.ofTokens_eq_between, whole]

/-- The parser accepts exactly the grammar: from the first token on it gives a tree if and only if
the tokens derive that tree up to locations. -/
theorem program_ok_iff (source : Source) (tokens : List Token) (tree : Node) :
    (∃ node, (program (.ofTokens source tokens)).1 = .ok node ∧ node.Alike tree) ↔
      ∃ node, Program (tokens.map Token.lexeme) node ∧ node.Alike tree := by
  constructor
  · rintro ⟨node, ran, alike⟩
    exact ⟨node, program_sound ran, alike⟩
  · rintro ⟨other, derivation, likeOther⟩
    obtain ⟨node, ran, alike⟩ := program_complete derivation
    exact ⟨node, ran, alike.trans likeOther⟩

end SprigCompiler.Parse
