import SprigCompiler.Proofs.Parser.Lookahead
import SprigCompiler.Proofs.Parser.Unclosed

/-!
Programs one behind the other.

Every statement of a program starts with a keyword, and behind a keyword nothing that stands before
it matters for what names mean.  So the statements of a program are read in the same way behind any
other tokens, and in front of any other statements.  Only the entry point is carried over.
-/

namespace SprigCompiler.Parse

open Movable (move)
open Grammar (Sequence Statement)

variable {shift : Shift} {source : Source} {entry : Option Location}
  {past otherPast ahead : List Token} {head start : Token} {node : Node} {behind : Parser}

private theorem governing_append_of_mem {front : List Token}
    (governed : ∃ token ∈ front, token.kind.governs)
    (past : List Token) : governing (front ++ past) = governing front := by
  obtain ⟨token, isMember, governs⟩ := governed
  have found : (front.find? (·.kind.governs)).isSome = true :=
    List.find?_isSome.mpr ⟨token, isMember, governs⟩
  unfold governing
  rw [List.find?_append, Option.or_of_isSome found]

private theorem governing_move (tokens : List Token) :
    governing (move shift tokens) = governing tokens := by
  unfold governing
  rw [show move shift tokens = tokens.map (move shift) from rfl, List.find?_map, Option.map_map]
  rfl

private theorem formAfter_append {front : List Token}
    (governed : ∃ token ∈ front, token.kind.governs)
    (past : List Token) : formAfter (front ++ past) = formAfter front := by
  have nonempty : front ≠ [] := by
    rintro rfl
    obtain ⟨_, isMember, _⟩ := governed
    cases isMember
  unfold formAfter
  rw [governing_append_of_mem governed, List.head?_append_of_ne_nil _ nonempty]

private theorem formAfter_move (tokens : List Token) :
    formAfter (move shift tokens) = formAfter tokens := by
  unfold formAfter
  rw [governing_move]
  cases tokens <;> rfl

/-- Behind a keyword and one more token, names mean the same whatever stands before the keyword. -/
theorem sameContext_behind_keyword {word : Keyword} (isKeyword : head.kind = .keyword word)
    (start : Token) (past otherPast : List Token) :
    SameContext shift (start :: head :: past)
      (move shift start :: move shift head :: otherPast) := by
  have governs : head.kind.governs = true := by
    rw [isKeyword]
    rfl
  have sameForm : ∀ front : List Token, head ∈ front →
      formAfter (front ++ past) = formAfter (move shift front ++ otherPast) := by
    intro front isMember
    have movedMember : move shift head ∈ move shift front := List.mem_map_of_mem isMember
    rw [formAfter_append ⟨head, isMember, governs⟩, formAfter_append ⟨_, movedMember, governs⟩,
      formAfter_move]
  intro recent
  cases recent with
  | nil => exact sameForm [head] List.mem_cons_self
  | cons last recent =>
      have whole := sameForm (recent ++ [start, head]) (by simp)
      rw [Shift.move_append, List.append_assoc, List.append_assoc] at whole
      exact whole

/-- A statement that a keyword starts is read in the same way behind any other tokens. -/
theorem statement_parallelAt (shift : Shift) {word : Keyword} (isKeyword : head.kind = .keyword word)
    (noMain : word ≠ .mainWord) (past otherPast : List Token) :
    ParallelAt shift (head :: past) (move shift head :: otherPast) (statement head)
      (statement (move shift head)) := by
  rw [statement_eq, statement_eq]
  refine .ahead_bind (fun count => ?_) (saturates_statementWith head) (saturates_statementWith _)
  rw [statementWith_of_keyword isKeyword noMain,
    statementWith_of_keyword (show (move shift head).kind = .keyword word from isKeyword) noMain]
  refine .statementOf _ head (.next_bind fun start => ?_)
  exact (parallelWith shift _).expression start _ _
    (sameContext_behind_keyword isKeyword start past otherPast)

private theorem mainBehind_parallelAt (shift : Shift) (isMain : head.kind = .keyword .mainWord)
    (past otherPast : List Token) :
    ParallelAt shift (head :: past) (move shift head :: otherPast) (mainBehind head)
      (mainBehind (move shift head)) := by
  refine .ahead_bind (fun count => ?_) (saturates_mainBehind head) (saturates_mainBehind _)
  refine .statementOf .main head (.next_bind fun start => ?_)
  exact (((parallelWith shift _).expression start).bind Parallel.calledValue) _ _
    (sameContext_behind_keyword isMain start past otherPast)

theorem statementOf_eq_ok {form : StatementForm} {value : Parse Node} {parser : Parser}
    (ran : statementOf form head value parser = (.ok node, behind)) :
    ∃ found, node = .statement form found (head.location.through found.location) := by
  unfold statementOf at ran
  obtain ⟨found, middle, _, built⟩ := bind_eq_ok ran
  exact ⟨found, (build_eq_ok built).2.1⟩

private theorem mainBehind_eq_ok {parser : Parser}
    (ran : mainBehind head parser = (.ok node, behind)) :
    ∃ found, node = .statement .main found (head.location.through found.location) := by
  unfold mainBehind at ran
  obtain ⟨count, middle, _, ran⟩ := bind_eq_ok ran
  exact statementOf_eq_ok ran

theorem isMain_statement (word : Keyword) (value : Node) (place : Location) :
    (Node.statement (formOf word) value place).isMain = (word == .mainWord) := by
  cases word <;> rfl

/-- A statement of a program is that of the keyword at which it starts. -/
theorem statement_eq_ok
    (ran : statement head (.between source entry (head :: past) ahead) = (.ok node, behind))
    (admitted : node.kind ∈ NodeKind.program.admissible .body) :
    ∃ word value, head.kind = .keyword word ∧
      node = .statement (formOf word) value (head.location.through value.location) := by
  obtain ⟨_, _, _, _, _, derivation⟩ := statement_sound ran admitted
  obtain ⟨word, text, others, starts⟩ := derivation.starts_keyword
  have isKeyword : head.kind = .keyword word := kind_of_lexeme_eq (List.cons.inj starts).1
  by_cases isMain : word = .mainWord
  · subst isMain
    rw [statement_of_main isKeyword] at ran
    obtain ⟨_, middle, _, ran⟩ := bind_eq_ok ran
    obtain ⟨value, rfl⟩ := mainBehind_eq_ok ran
    exact ⟨_, value, isKeyword, rfl⟩
  · rw [statement_between, statementWith_of_keyword isKeyword isMain] at ran
    obtain ⟨value, rfl⟩ := statementOf_eq_ok ran
    exact ⟨_, value, isKeyword, rfl⟩

/-- What was read is read again, with its locations moved, wherever the same tokens stand in front
of the same token or of other statements. -/
theorem statement_moves (shift : Shift) (otherPast : List Token)
    (ran : statement head (.between source entry (head :: past) ahead) = (.ok node, behind))
    (admitted : node.kind ∈ NodeKind.program.admissible .body) :
    ∃ taken rest, ahead = taken ++ rest ∧
      behind = .between source (entryBehind entry head node) (taken.reverse ++ head :: past) rest ∧
      ∀ (otherSource : Source) (otherEntry : Option Location) (others : List Token),
        (node.isMain = true → otherEntry = none) →
        CanFollow shift (.ok node : Except ParseError Node) rest others →
        statement (move shift head)
            (.between otherSource otherEntry (move shift head :: otherPast)
              (move shift taken ++ others)) =
          (.ok (move shift node),
            .between otherSource (entryBehind otherEntry (move shift head) node)
              ((move shift taken).reverse ++ move shift head :: otherPast) others) := by
  obtain ⟨word, value, isKeyword, isStatement⟩ := statement_eq_ok ran admitted
  have noEnd : ∀ {Claim : Prop}, (Except.ok node : Except ParseError Node).isOk = false → Claim :=
    fun failed => Bool.noConfusion failed
  by_cases isMain : word = .mainWord
  · subst isMain
    have marked : node.isMain = true := by
      rw [isStatement]
      rfl
    rw [statement_of_main isKeyword] at ran
    obtain ⟨_, middle, enters, ran⟩ := bind_eq_ok ran
    cases entry with
    | some location =>
        rw [enterMain_some] at enters
        cases enters
    | none =>
        rw [enterMain_none] at enters
        cases enters
        obtain ⟨outcome, taken, rest, rfl, stands, runs⟩ := mainBehind_parallelAt shift
          isKeyword past otherPast source (some head.location) ahead
        rw [ran] at stands
        obtain ⟨rfl, rfl⟩ := Prod.mk.inj stands
        unfold entryBehind
        rw [if_pos marked]
        refine ⟨taken, rest, rfl, rfl, ?_⟩
        intro otherSource otherEntry others fresh follows
        rw [fresh marked, statement_of_main (show (move shift head).kind = _ from isKeyword),
          bind_of_ok enterMain_none, if_pos marked]
        exact runs otherSource _ others noEnd follows
  · have unmarked : node.isMain = false := by
      rw [isStatement, isMain_statement]
      exact beq_eq_false_iff_ne.mpr isMain
    obtain ⟨outcome, taken, rest, rfl, stands, runs⟩ := statement_parallelAt shift
      isKeyword isMain past otherPast source entry ahead
    rw [ran] at stands
    obtain ⟨rfl, rfl⟩ := Prod.mk.inj stands
    unfold entryBehind
    rw [unmarked]
    refine ⟨taken, rest, rfl, rfl, ?_⟩
    intro otherSource otherEntry others _ follows
    exact runs otherSource otherEntry others noEnd follows

/-- A second main declaration is refused at its keyword. -/
theorem statement_duplicate (isMain : head.kind = .keyword .mainWord) (location : Location) :
    statement head (.between source (some location) past ahead) =
      (.error (.duplicateEntry head.position), .between source (some location) past ahead) := by
  rw [statement_of_main isMain]
  exact bind_of_error (enterMain_some location)

variable {count : Nat} {nodes : List Node} {others : List Token}

theorem statements_cons :
    statements (count + 1) (.between source entry past (head :: ahead)) =
      (do return (← statement head) :: (← statements count) : Parse (List Node))
        (.between source entry (head :: past) ahead) := by
  rw [statements]
  exact bind_of_ok advance_cons

/-- Behind the main declaration of a program there is no other one. -/
theorem not_isMain_of_rest {first : Node} {rest : List Node}
    (once : (first :: rest).countP Node.isMain + entry.toList.length ≤ 1)
    (another : rest.any Node.isMain = true) : first.isMain = false := by
  obtain ⟨node, isMember, isMain⟩ := List.any_eq_true.mp another
  have later : 0 < rest.countP Node.isMain := List.countP_pos_iff.mpr ⟨node, isMember, isMain⟩
  rw [← Bool.not_eq_true]
  intro marked
  rw [List.countP_cons_of_pos marked] at once
  omega

/-- Behind a statement its own followers stand, or those of the last one. -/
theorem canFollow_append (rest : List Token) (ends : Ends others) :
    CanFollow shift (.ok node : Except ParseError Node) rest (move shift rest ++ others) := by
  cases rest with
  | nil => exact .inr ⟨rfl, rfl, ends⟩
  | cons => exact .inl rfl

/-- The statements of a program are read again, with their locations moved, in front of other
statements, and then reading goes on with those. -/
theorem statements_moves (shift : Shift) (otherSource : Source) (more : Nat)
    (ran : statements count (.between source entry past ahead) = (.ok nodes, behind))
    (enough : ahead.length ≤ count)
    (admitted : ∀ node ∈ nodes, node.kind ∈ NodeKind.program.admissible .body)
    (ends : Ends others) (otherEntry : Option Location) (otherPast : List Token)
    (fresh : nodes.any Node.isMain = true → otherEntry = none) :
    ∃ found, found.isSome = (otherEntry.isSome || nodes.any Node.isMain) ∧
      statements (more + nodes.length)
          (.between otherSource otherEntry otherPast (move shift ahead ++ others)) =
        (statements more >>= fun rest => pure (move shift nodes ++ rest) : Parse (List Node))
          (.between otherSource found ((move shift ahead).reverse ++ otherPast) others) := by
  induction count generalizing entry past ahead nodes otherEntry otherPast with
  | zero =>
      rw [List.length_eq_zero_iff.mp (Nat.le_zero.mp enough)]
      cases ran
      exact ⟨otherEntry, (Bool.or_false _).symm, (congrFun (bind_pure_eq _) _).symm⟩
  | succ count inductionHypothesis =>
      have whole := statements_sound ran enough admitted
      cases ahead with
      | nil =>
          rw [statements_nil] at ran
          cases ran
          exact ⟨otherEntry, (Bool.or_false _).symm, (congrFun (bind_pure_eq _) _).symm⟩
      | cons head ahead =>
          rw [statements_cons] at ran
          obtain ⟨first, middle, read, ran⟩ := bind_eq_ok ran
          obtain ⟨rest, middle, readRest, ran⟩ := bind_eq_ok ran
          cases ran
          obtain ⟨taken, ahead, rfl, rfl, runs⟩ :=
            statement_moves shift otherPast read (admitted first List.mem_cons_self)
          have fewer : ahead.length ≤ count := by
            simp only [List.length_cons, List.length_append] at enough
            omega
          have freshRest : rest.any Node.isMain = true →
              entryBehind otherEntry (move shift head) first = none := by
            intro another
            have unmarked := not_isMain_of_rest whole.2 another
            unfold entryBehind
            rw [unmarked]
            exact fresh (by rw [List.any_cons, unmarked, Bool.false_or, another])
          obtain ⟨found, isFound, goesOn⟩ := inductionHypothesis readRest fewer
            (fun node isMember => admitted node (List.mem_cons_of_mem _ isMember)) _ _ freshRest
          refine ⟨found, ?_, ?_⟩
          · rw [isFound, List.any_cons, ← Bool.or_assoc]
            unfold entryBehind
            cases first.isMain with
            | false => rw [Bool.or_false]; rfl
            | true => rw [Bool.or_true]; rfl
          · have freshFirst : first.isMain = true → otherEntry = none := by
              intro isMain
              exact fresh (by rw [List.any_cons, isMain, Bool.true_or])
            rw [Shift.move_cons, Shift.move_append, List.cons_append, List.append_assoc,
              List.length_cons, ← Nat.add_assoc, statements_cons]
            apply (bind_of_ok (runs otherSource otherEntry _ freshFirst
              (canFollow_append ahead ends))).trans
            apply (bind_of_eq goesOn _).trans
            rw [bind_assoc_eq]
            simp only [List.reverse_append, List.reverse_cons, List.append_assoc, List.cons_append]
            rfl

/-- If a main declaration has been seen, reading statements again fails at their own one. -/
theorem statements_duplicate (shift : Shift) (otherSource : Source) (more : Nat)
    (ran : statements count (.between source entry past ahead) = (.ok nodes, behind))
    (enough : ahead.length ≤ count)
    (admitted : ∀ node ∈ nodes, node.kind ∈ NodeKind.program.admissible .body)
    (ends : Ends others) (location : Location) (otherPast : List Token) {main : Node}
    (isMember : main ∈ nodes) (isMain : main.isMain = true) :
    Fails (statements (more + nodes.length))
      (.between otherSource (some location) otherPast (move shift ahead ++ others))
      (.duplicateEntry (move shift main.location).position) := by
  induction count generalizing entry past ahead nodes otherPast with
  | zero =>
      rw [List.length_eq_zero_iff.mp (Nat.le_zero.mp enough)] at ran
      cases ran
      cases isMember
  | succ count inductionHypothesis =>
      have whole := statements_sound ran enough admitted
      cases ahead with
      | nil =>
          rw [statements_nil] at ran
          cases ran
          cases isMember
      | cons head ahead =>
          rw [statements_cons] at ran
          obtain ⟨first, middle, read, ran⟩ := bind_eq_ok ran
          obtain ⟨rest, middle, readRest, ran⟩ := bind_eq_ok ran
          cases ran
          have admittedFirst := admitted first List.mem_cons_self
          unfold Fails
          rw [Shift.move_cons, List.cons_append, List.length_cons, ← Nat.add_assoc, statements_cons]
          rcases List.mem_cons.mp isMember with rfl | isLater
          · obtain ⟨word, value, isKeyword, rfl⟩ := statement_eq_ok read admittedFirst
            rw [isMain_statement, beq_iff_eq] at isMain
            subst isMain
            have isMain : (move shift head).kind = .keyword .mainWord := isKeyword
            exact ⟨_, bind_of_error (statement_duplicate isMain location)⟩
          · have another : rest.any Node.isMain = true :=
              List.any_eq_true.mpr ⟨main, isLater, isMain⟩
            have unmarked := not_isMain_of_rest whole.2 another
            obtain ⟨taken, ahead, rfl, rfl, runs⟩ :=
              statement_moves shift otherPast read admittedFirst
            have fewer : ahead.length ≤ count := by
              simp only [List.length_cons, List.length_append] at enough
              omega
            have notAgain : first.isMain = true → some location = none := by
              rw [unmarked]
              exact fun marked => Bool.noConfusion marked
            have ranFirst := runs otherSource (some location) _ notAgain
              (canFollow_append ahead ends)
            unfold entryBehind at ranFirst
            rw [unmarked] at ranFirst
            obtain ⟨behind, failed⟩ := inductionHypothesis readRest fewer
              (fun node isMember => admitted node (List.mem_cons_of_mem _ isMember)) _ isLater
            rw [Shift.move_append, List.append_assoc]
            exact ⟨behind, (bind_of_ok ranFirst).trans (bind_of_error failed)⟩

/-! ### Two programs -/

theorem program_eq_ok {tokens : List Token}
    (ran : (program (.ofTokens source tokens)).1 = .ok node) :
    ∃ nodes behind, node = .program nodes source.extent ∧
      statements tokens.length (.between source none [] tokens) = (.ok nodes, behind) ∧
      ∀ node ∈ nodes, node.kind ∈ NodeKind.program.admissible .body := by
  rw [Parser.ofTokens_eq_between] at ran
  cases whole : program (.between source none [] tokens) with
  | mk outcome last =>
      rw [whole] at ran
      cases ran
      unfold program at whole
      have ran := (bind_of_ok ahead_between).symm.trans whole
      obtain ⟨nodes, middle, read, ran⟩ := bind_eq_ok ran
      obtain ⟨place, behind, located, ran⟩ := bind_eq_ok ran
      obtain ⟨sound, rfl, rfl⟩ := build_eq_ok ran
      obtain ⟨_, _, _, stands⟩ := (LooksAhead.statements _).behind read
      rw [stands.2] at located
      cases located
      exact ⟨nodes, middle, rfl, read, (Node.faultAmong?_eq_none_iff _ _ _).mp sound⟩

private theorem program_of_statements {tokens : List Token}
    (ran : statements tokens.length (.between source none [] tokens) =
      (.ok nodes, .between source entry past ahead))
    (admitted : ∀ node ∈ nodes, node.kind ∈ NodeKind.program.admissible .body) :
    (program (.ofTokens source tokens)).1 = .ok (.program nodes source.extent) := by
  have sound : (Node.program nodes source.extent).firstFault? = none :=
    (Node.faultAmong?_eq_none_iff _ _ _).mpr admitted
  have whole : program (.between source none [] tokens) =
      (.ok (.program nodes source.extent), .between source entry past ahead) := by
    apply (bind_of_ok ahead_between).trans
    apply (bind_of_ok ran).trans
    apply (bind_of_ok rfl).trans
    exact build_of_sound sound _
  rw [Parser.ofTokens_eq_between, whole]

private theorem lexeme_move (shift : Shift) (tokens : List Token) :
    (move shift tokens).map Token.lexeme = tokens.map Token.lexeme := by
  rw [show move shift tokens = tokens.map (move shift) from rfl, List.map_map]
  rfl

/-- The tokens of a second program behind those of a first one, moved down: the statements of both
are one program, unless both declare an entry point. -/
theorem program_append (shift : Shift) (whole : Source) {first second : Source}
    {tokens others : List Token} {nodes otherNodes : List Node} {place otherPlace : Location}
    (ran : (program (.ofTokens first tokens)).1 = .ok (.program nodes place))
    (otherRan : (program (.ofTokens second others)).1 = .ok (.program otherNodes otherPlace)) :
    ((nodes.any Node.isMain && otherNodes.any Node.isMain) = false →
      (program (.ofTokens whole (tokens ++ move shift others))).1 =
        .ok (.program (nodes ++ move shift otherNodes) whole.extent)) ∧
    ∀ main ∈ otherNodes, main.isMain = true → nodes.any Node.isMain = true →
      (program (.ofTokens whole (tokens ++ move shift others))).1 =
        .error (.duplicateEntry (move shift main.location).position) := by
  obtain ⟨_, _, isProgram, read, admitted⟩ := program_eq_ok ran
  cases isProgram
  obtain ⟨_, _, isProgram, otherRead, otherAdmitted⟩ := program_eq_ok otherRan
  cases isProgram
  have endsNothing : Ends [] := fun _ isFirst => nomatch isFirst
  have ends : Ends (move shift others) := by
    have derivations := (statements_sound otherRead (Nat.le_refl _) otherAdmitted).1
    have ends := ends_of_sequence Grammar.Statement.starts_keyword derivations
      (lexeme_move shift others) endsNothing
    rwa [List.append_nil] at ends
  -- A count that leaves enough for the second program and for what comes behind it.
  let count := (tokens ++ move shift others).length
  obtain ⟨found, isFound, goesOn⟩ := statements_moves .zero whole (count + otherNodes.length) read
    (Nat.le_refl _) admitted ends none [] fun _ => rfl
  rw [Shift.move_zero_tokens, Nat.add_assoc,
    saturates_statements _ _ _ _ _ (Nat.le_add_right _ _),
    Shift.map_move_zero Shift.move_zero_node, List.append_nil] at goesOn
  constructor
  · intro notBoth
    have fresh : otherNodes.any Node.isMain = true → found = none := by
      intro again
      rw [again, Bool.and_true] at notBoth
      rw [notBoth] at isFound
      cases found with
      | none => rfl
      | some => cases isFound
    obtain ⟨last, _, finishes⟩ := statements_moves shift whole count otherRead (Nat.le_refl _)
      otherAdmitted endsNothing found tokens.reverse fresh
    have finished := finishes.trans (bind_of_ok (statements_nil count))
    rw [List.append_nil, List.append_nil] at finished
    have readBoth := goesOn.trans (bind_of_ok finished)
    refine program_of_statements readBoth ?_
    intro node isMember
    rcases List.mem_append.mp isMember with isFirst | isSecond
    · exact admitted node isFirst
    · obtain ⟨other, isOther, rfl⟩ := List.mem_map.mp isSecond
      rw [show (move shift other).kind = other.kind from Node.kind_relocated _ other]
      exact otherAdmitted other isOther
  · intro main isMember isMain hasMain
    cases found with
    | none =>
        rw [hasMain] at isFound
        cases isFound
    | some location =>
        obtain ⟨behind, failed⟩ := statements_duplicate shift whole count otherRead (Nat.le_refl _)
          otherAdmitted endsNothing location tokens.reverse isMember isMain
        rw [List.append_nil] at failed
        exact program_fails whole _ ⟨behind, goesOn.trans (bind_of_error failed)⟩

end SprigCompiler.Parse
