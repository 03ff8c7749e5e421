import SprigCompiler.Proofs.Guarded.Parsing
import SprigCompiler.Proofs.Parser.Seams

/-!
The entry point over the life of a parser.

A parser remembers that a main declaration was started, whether or not the declaration could be
read, and nothing makes it forget.  Only statements are main declarations: expressions and blocks
are built without any, at all depths.  So every main declaration that is given back has been noted,
and it was the first one to be noted.
-/

namespace SprigCompiler

namespace Node

def mains (trees : List Node) : Nat := (listed trees).countP isMain

theorem mains_append (front behind : List Node) :
    mains (front ++ behind) = mains front + mains behind := by
  unfold mains
  rw [listed_append, List.countP_append]

theorem mains_singleton (node : Node) :
    mains [node] = mains node.children + if node.isMain then 1 else 0 := by
  unfold mains
  rw [listed_singleton, List.countP_cons]

theorem mains_cons (node : Node) (rest : List Node) :
    mains (node :: rest) = mains [node] + mains rest :=
  mains_append [node] rest

private theorem mains_eq_zero {trees : List Node} (each : ∀ tree ∈ trees, mains [tree] = 0) :
    mains trees = 0 := by
  induction trees with
  | nil => rfl
  | cons tree rest inductionHypothesis =>
      obtain ⟨first, others⟩ := List.forall_mem_cons.mp each
      rw [mains_cons, first, inductionHypothesis others]

private theorem mains_pos {trees : List Node} (hasMain : trees.any isMain = true) :
    0 < mains trees := by
  obtain ⟨tree, isMember, isMain⟩ := List.any_eq_true.mp hasMain
  obtain ⟨front, behind, rfl⟩ := List.append_of_mem isMember
  rw [mains_append, mains_cons, mains_singleton, isMain, if_pos rfl]
  omega

theorem isMain_eq_false {node : Node} (other : node.kind ≠ .mainDeclaration) :
    node.isMain = false := by
  cases node with
  | statement form value location =>
      cases form with
      | main => exact absurd rfl other
      | _ => rfl
  | _ => rfl

/-- Only programs have rows for main declarations, and no node has one for programs. -/
theorem not_mem_kinds_of_mem_table {kind : NodeKind} (noProgram : kind ≠ .program) :
    ∀ row ∈ kind.table, .program ∉ row.kinds ∧ .mainDeclaration ∉ row.kinds := by
  cases kind with
  | program => exact absurd rfl noProgram
  | _ => decide

/-- Below a node that is no program there is no main declaration. -/
theorem mains_children {node : Node} (allowed : node.AllowedThroughout)
    (noProgram : node.kind ≠ .program) : mains node.children = 0 := by
  induction node using children_induction with
  | parent node inductionHypothesis =>
      obtain ⟨here, below⟩ := (allowedThroughout_iff node).mp allowed
      apply mains_eq_zero
      intro child isChild
      obtain ⟨row, isRow, stands⟩ := exists_row_of_mem_children isChild
      have listed : child.kind ∈ row.kinds := here.kind_mem isRow stands
      obtain ⟨refusesProgram, refusesMain⟩ := not_mem_kinds_of_mem_table noProgram row isRow
      have noMain : child.isMain = false :=
        isMain_eq_false fun isMain => refusesMain (isMain ▸ listed)
      have nothing := inductionHypothesis child isChild (below child isChild)
        fun isProgram => refusesProgram (isProgram ▸ listed)
      rw [mains_singleton, nothing, noMain]
      rfl

theorem mains_of_allowed {node : Node} (allowed : node.AllowedThroughout)
    (noProgram : node.kind ≠ .program) : mains [node] = if node.isMain then 1 else 0 := by
  rw [mains_singleton, mains_children allowed noProgram, Nat.zero_add]

end Node

namespace Parse

open Node (mains)

variable {source : Source} {entry : Option Location} {past ahead : List Token} {head start : Token}
  {parser between here behind : Parser} {number count : Nat} {nodes : List Node}

structure Inner (node : Node) : Prop where
  noProgram : node.kind ≠ .program
  noMain : node.isMain = false

protected theorem Ensures.inner {node : Node} (inner : Inner node) :
    Ensures (build node) Inner := by
  constructor
  intro parser behind found ran
  obtain ⟨_, rfl, _⟩ := build_eq_ok ran
  exact inner

private theorem inner_application (form : ApplicationForm) (name : Node) (arguments : List Node)
    (location : Location) : Inner (.application form name arguments location) := by
  cases form <;> exact ⟨nofun, rfl⟩

private theorem inner_blockOf (opening : Token) (inside : Parse (List Node × Location)) :
    Ensures (blockOf opening inside) Inner :=
  .after fun _ => .inner ⟨nofun, rfl⟩

private theorem inner_literal (token : Token) : Ensures (literal token) Inner := by
  unfold literal
  split
  · exact .pure ⟨nofun, rfl⟩
  · split
    · exact .pure ⟨nofun, rfl⟩
    · exact .fail _
  · exact .pure ⟨nofun, rfl⟩
  · exact .fail _

private theorem inner_named (head : Token) : Ensures (named head) Inner := by
  refine .after fun cursor => .after fun opening => ?_
  dsimp only
  split
  · exact .after fun found => .inner (inner_application _ _ _ _)
  · refine .after fun count => .after fun found => ?_
    split
    · exact .pure ⟨nofun, rfl⟩
    · exact .inner (inner_application _ _ _ _)

private theorem inner_operand (head : Token) : Ensures (operand head) Inner := by
  by_cases isName : head.kind = .identifier
  · rw [operand_eq_named isName]
    exact inner_named head
  · rw [operand_eq_literal isName]
    exact inner_literal head

private theorem inner_binding (sign : Operator) (left : Node) (right : Token → Parse Node) :
    Ensures (binding sign left right) Inner := by
  unfold binding union
  split
  · exact .after fun _ => .after fun _ => .inner ⟨nofun, rfl⟩
  · exact .after fun _ => .after fun _ => .inner ⟨nofun, rfl⟩

private theorem inner_tailWith (fuel : Nat) {left : Node} (inner : Inner left) :
    Ensures (tailWith fuel left) Inner := by
  cases fuel with
  | zero => exact .pure inner
  | succ fuel =>
      rw [tailWith_succ]
      refine .after fun found => ?_
      cases found with
      | none => exact .pure inner
      | some sign =>
          dsimp only
          split
          · exact .after fun _ => .after fun _ => .inner ⟨nofun, rfl⟩
          · exact inner_binding sign left _

private theorem inner_expressionWith (fuel : Nat) (head : Token) :
    Ensures (expressionWith fuel head) Inner := by
  cases fuel with
  | zero => exact .unexpectedEnd
  | succ fuel =>
      rw [expressionWith_succ]
      split
      · exact inner_blockOf head _
      · exact (inner_operand head).bind fun _ => inner_tailWith fuel

/-- A statement is a main declaration only if it starts with `main`. -/
theorem ensures_isMain (head : Token) : Ensures (statement head) fun node =>
    node.kind ≠ .program ∧ (node.isMain = true → head.kind = .keyword .mainWord) := by
  have other {step : Parse Node} (inner : Ensures step Inner) : Ensures step fun node =>
      node.kind ≠ .program ∧ (node.isMain = true → head.kind = .keyword .mainWord) := by
    constructor
    intro parser behind node ran
    obtain ⟨noProgram, noMain⟩ := inner.result ran
    exact ⟨noProgram, fun isMain => by rw [noMain] at isMain; cases isMain⟩
  rw [statement_eq]
  refine .after fun count => ?_
  by_cases isKeyword : ∃ word, head.kind = .keyword word
  · obtain ⟨word, isKeyword⟩ := isKeyword
    by_cases isMain : word = .mainWord
    · subst isMain
      rw [statementWith_main isKeyword]
      refine .after fun _ => .after fun value => ?_
      constructor
      intro parser behind node ran
      obtain ⟨_, rfl, _⟩ := build_eq_ok ran
      exact ⟨nofun, fun _ => isKeyword⟩
    · rw [statementWith_of_keyword isKeyword isMain]
      refine .after fun value => other (.inner ⟨?_, ?_⟩)
      · cases word <;> exact nofun
      · rw [isMain_statement]
        exact beq_eq_false_iff_ne.mpr isMain
  · by_cases isBrace : head.kind = .openBrace
    · rw [statementWith_brace isBrace]
      exact other (inner_blockOf head _)
    · have noKeyword : head.kind.isKeyword = false := by
        cases kind : head.kind with
        | keyword word => exact absurd ⟨word, kind⟩ isKeyword
        | _ => rfl
      rw [statementWith_other noKeyword isBrace]
      exact .fail _

/-- What is remembered of the entry point behind a statement, however the statement ends. -/
def entryAfter (entry : Option Location) (head : Token) : Option Location :=
  if head.kind = .keyword .mainWord then entry.or (some head.location) else entry

private theorem entryAfter_isSome (isMain : head.kind = .keyword .mainWord) :
    (entryAfter entry head).isSome = true := by
  unfold entryAfter
  rw [if_pos isMain]
  cases entry <;> rfl

theorem statement_enters {outcome : Except ParseError Node}
    (ran : statement head (.between source entry past ahead) = (outcome, behind)) :
    ∃ taken rest, ahead = taken ++ rest ∧
      behind = .between source (entryAfter entry head) (taken.reverse ++ past) rest := by
  unfold entryAfter
  by_cases isMain : head.kind = .keyword .mainWord
  · rw [if_pos isMain]
    cases entry with
    | some location =>
        rw [statement_duplicate isMain] at ran
        cases ran
        exact ⟨[], ahead, rfl, rfl⟩
    | none =>
        rw [statement_of_main isMain, bind_of_ok enterMain_none] at ran
        exact (Parallel.mainBehind head).behind ran
  · rw [if_neg isMain]
    exact (Parallel.statement isMain).behind ran

/-- The main declarations of a statement are accounted for by the entry point. -/
theorem statement_mains {outcome : Except ParseError Node}
    (ran : statement head (.between source entry past ahead) = (outcome, behind)) :
    mains outcome.toOption.toList + entry.toList.length ≤ behind.entryPoint.toList.length := by
  obtain ⟨taken, rest, rfl, rfl⟩ := statement_enters ran
  change _ ≤ (entryAfter entry head).toList.length
  have kept : entry.toList.length ≤ (entryAfter entry head).toList.length := by
    unfold entryAfter
    split
    · cases entry with
      | none => exact Nat.zero_le _
      | some location => exact Nat.le_refl _
    · exact Nat.le_refl _
  cases outcome with
  | error error => exact (Nat.zero_add _).trans_le kept
  | ok node =>
      obtain ⟨noProgram, starts⟩ := (ensures_isMain head).result ran
      have allowed := ((ensures_statement head).result ran).allowed
      change mains [node] + _ ≤ _
      rw [Node.mains_of_allowed allowed noProgram]
      cases isMain : node.isMain with
      | false => exact (Nat.zero_add _).trans_le kept
      | true =>
          cases entry with
          | none =>
              unfold entryAfter
              rw [if_pos (starts isMain)]
              exact Nat.le_refl 1
          | some location =>
              rw [statement_duplicate (starts isMain)] at ran
              cases ran

/-! ### Statement after statement -/

/-- Behind a statement whose main declarations are accounted for, those of the others are too. -/
theorem statements_mains_cons {found : Option Location} {first : Node}
    {outcome : Except ParseError (List Node)}
    (counted : mains [first] + entry.toList.length ≤ found.toList.length)
    (countedRest : ∀ {others last},
      statements count (.between source found past ahead) = (others, last) →
        mains (others.toOption.getD []) + found.toList.length ≤ last.entryPoint.toList.length)
    (ran : (do return first :: (← statements count) : Parse (List Node))
      (.between source found past ahead) = (outcome, behind)) :
    mains (outcome.toOption.getD []) + entry.toList.length ≤
      behind.entryPoint.toList.length := by
  cases read : statements count (.between source found past ahead) with
  | mk others last =>
      have whole := countedRest read
      cases others with
      | error error =>
          rw [bind_of_error read] at ran
          cases ran
          exact Nat.add_le_add_left ((Nat.le_add_left _ _).trans counted) _ |>.trans whole
      | ok rest =>
          rw [bind_of_ok read] at ran
          cases ran
          change mains rest + _ ≤ _ at whole
          change mains (first :: rest) + _ ≤ _
          rw [Node.mains_cons]
          omega

private theorem statements_mains {outcome : Except ParseError (List Node)}
    (ran : statements count (.between source entry past ahead) = (outcome, behind)) :
    mains (outcome.toOption.getD []) + entry.toList.length ≤
      behind.entryPoint.toList.length := by
  induction count generalizing entry past ahead outcome behind with
  | zero =>
      cases ran
      exact (Nat.zero_add _).le
  | succ count inductionHypothesis =>
      cases ahead with
      | nil =>
          rw [statements_nil] at ran
          cases ran
          exact (Nat.zero_add _).le
      | cons token ahead =>
          rw [statements_cons] at ran
          cases read : statement token (.between source entry (token :: past) ahead) with
          | mk first middle =>
              have counted := statement_mains read
              obtain ⟨taken, rest, rfl, rfl⟩ := statement_enters read
              cases first with
              | error error =>
                  rw [bind_of_error read] at ran
                  cases ran
                  exact counted
              | ok node =>
                  rw [bind_of_ok read] at ran
                  exact statements_mains_cons counted (fun rest => inductionHypothesis rest) ran

private theorem isSome_of_accounted {entry found : Option Location} {given : Nat}
    (accounted : given + entry.toList.length ≤ found.toList.length)
    (any : 0 < given ∨ entry.isSome = true) : found.isSome = true := by
  cases found with
  | some location => rfl
  | none =>
      rw [Option.toList_none, List.length_nil] at accounted
      rcases any with positive | noted
      · omega
      · obtain ⟨location, rfl⟩ := Option.isSome_iff_exists.mp noted
        exact absurd accounted (Nat.not_succ_le_zero _)

private theorem statements_keeps {outcome : Except ParseError (List Node)}
    (ran : statements count (.between source entry past ahead) = (outcome, behind))
    (noted : entry.isSome = true) : behind.entryPoint.isSome = true :=
  isSome_of_accounted (statements_mains ran) (.inr noted)

private theorem advance_eq_some
    (starts : advance (.between source entry past ahead) = (.ok (some head), here)) :
    ∃ rest, ahead = head :: rest ∧ here = .between source entry (head :: past) rest := by
  cases ahead with
  | nil =>
      rw [advance_nil] at starts
      cases starts
  | cons token rest =>
      rw [advance_cons] at starts
      cases starts
      exact ⟨rest, rfl, rfl⟩

/-- Reading on behind some statements goes on with the statement of the next token. -/
theorem statements_from_start
    (read : statements number (.between source entry past ahead) = (.ok nodes, between))
    (starts : advance between = (.ok (some head), here)) :
    statements (number + (count + 1)) (.between source entry past ahead) =
      (do return nodes ++ (← statement head) :: (← statements count) : Parse (List Node))
        here := by
  induction number generalizing entry past ahead nodes with
  | zero =>
      cases read
      rw [Nat.zero_add, statements]
      exact bind_of_ok starts
  | succ number inductionHypothesis =>
      cases ahead with
      | nil =>
          rw [statements_nil] at read
          cases read
          rw [advance_nil] at starts
          cases starts
      | cons token ahead =>
          rw [statements_cons] at read
          obtain ⟨first, middle, readFirst, read⟩ := bind_eq_ok read
          obtain ⟨rest, last, readRest, read⟩ := bind_eq_ok read
          cases read
          obtain ⟨taken, ahead, rfl, rfl⟩ := statement_enters readFirst
          rw [Nat.succ_add, statements_cons, bind_of_ok readFirst,
            bind_of_eq (inductionHypothesis readRest) _, bind_assoc_eq]
          refine congrFun (bind_congr_eq _ fun node => ?_) _
          rw [bind_assoc_eq]
          rfl

def Remembers {Result : Type} (step : Parse Result) : Prop :=
  ∀ source entry past ahead, entry.isSome = true →
    (step (.between source entry past ahead)).2.entryPoint.isSome = true

private theorem remembers_rest (count : Nat) (front : List Node) : Remembers (do
    let others ← statements count
    build (.program (front ++ others) (← extent))) := by
  intro source entry past ahead noted
  cases ran : statements count (.between source entry past ahead) with
  | mk outcome behind =>
      have kept := statements_keeps ran noted
      cases outcome with
      | error error =>
          rw [bind_of_error ran]
          exact kept
      | ok others =>
          rw [bind_of_ok ran, bind_of_ok (show extent behind = (.ok _, behind) from rfl),
            build_eq_checked]
          exact kept

/-- Whether a call starts a statement at a token, with the number of statements that it has read
before, and the parser right behind the token. -/
inductive Call.Starts : Call → Parser → Nat → Token → Parser → Prop where
  | statement (head : Token) (parser : Parser) : Starts (.statement head) parser 0 head parser
  | program {parser between here : Parser} {number : Nat} {nodes : List Node} {head : Token}
      (read : statements number parser = (.ok nodes, between))
      (starts : advance between = (.ok (some head), here)) : Starts .program parser number head here

def StartMain (calls : List Call) (parser : Parser) : Prop :=
  ∃ earlier call later number head here, calls = earlier ++ call :: later ∧
    call.Starts (Call.runAll earlier parser).2 number head here ∧ head.kind = .keyword .mainWord

variable {call : Call} {calls : List Call}

/-- A call goes on with the statement that it starts, and remembers the entry point from there. -/
theorem Call.Starts.run_eq
    (starts : call.Starts (.between source entry past ahead) number head here) :
    ∃ (found : Option Location) (taken rest : List Token) (goesOn : Node → Parse Node),
      here = .between source found taken rest ∧ (entry.isSome = true → found.isSome = true) ∧
      call.run (.between source entry past ahead) = (Parse.statement head >>= goesOn) here ∧
      ∀ node, Remembers (goesOn node) := by
  cases starts with
  | statement =>
      refine ⟨entry, past, ahead, pure, rfl, id, ?_, fun _ _ _ _ _ noted => noted⟩
      exact (congrFun (bind_pure_eq _) _).symm
  | program read starts =>
      rename_i between nodes
      obtain ⟨found, taken, rest, rfl, rfl⟩ := (LooksAhead.statements _).behind read
      obtain ⟨rest, rfl, rfl⟩ := advance_eq_some starts
      let count := (taken ++ head :: rest).length
      refine ⟨found, _, rest, fun first => do
        let others ← statements count
        build (.program (nodes ++ [first] ++ others) (← extent)), rfl, statements_keeps read, ?_,
        fun first => remembers_rest count (nodes ++ [first])⟩
      · change (Parse.ahead >>= fun count => statements count >>= _) _ = _
        have enough := saturates_statements source entry past (taken ++ head :: rest)
          (number + (count + 1)) (by omega)
        rw [bind_of_ok ahead_between, ← bind_of_eq enough _,
          bind_of_eq (statements_from_start read starts) _, bind_assoc_eq]
        refine congrFun (bind_congr_eq _ fun first => ?_) _
        rw [bind_assoc_eq]
        simp only [List.append_assoc]
        rfl

/-- A main declaration is noted when it starts, and the call that starts it does not forget it. -/
theorem Call.Starts.notes (isMain : head.kind = .keyword .mainWord)
    (starts : call.Starts (.between source entry past ahead) number head here) :
    (call.run (.between source entry past ahead)).2.entryPoint.isSome = true := by
  obtain ⟨found, taken, rest, goesOn, rfl, _, ran, remembers⟩ := starts.run_eq
  rw [ran]
  cases read : Parse.statement head (.between source found taken rest) with
  | mk outcome behind =>
      obtain ⟨taken, rest, rfl, rfl⟩ := statement_enters read
      cases outcome with
      | error error =>
          rw [bind_of_error read]
          exact entryAfter_isSome isMain
      | ok node =>
          rw [bind_of_ok read]
          exact remembers node _ _ _ _ (entryAfter_isSome isMain)

/-- Once a main declaration is noted, a call that starts one fails right behind its keyword. -/
theorem Call.Starts.refused (isMain : head.kind = .keyword .mainWord)
    (starts : call.Starts (.between source entry past ahead) number head here)
    (noted : here.entryPoint.isSome = true) :
    call.run (.between source entry past ahead) =
      (.error (.duplicateEntry head.position), here) := by
  obtain ⟨found, taken, rest, goesOn, rfl, _, ran, _⟩ := starts.run_eq
  cases found with
  | none => cases noted
  | some location =>
      rw [ran]
      exact bind_of_error (statement_duplicate isMain location)

/-- Within a call, a main declaration is still noted where a later statement starts. -/
theorem Call.Starts.notes_later {earlier : Nat} {there : Parser}
    (isMain : start.kind = .keyword .mainWord)
    (starts : call.Starts (.between source entry past ahead) earlier start there)
    (startsLater : call.Starts (.between source entry past ahead) number head here)
    (before : earlier < number) : here.entryPoint.isSome = true := by
  cases startsLater with
  | statement => cases before
  | program readLater startsLater =>
      cases starts with
      | program read starts =>
          obtain ⟨_, _, _, rfl, rfl⟩ := (LooksAhead.statements _).behind read
          obtain ⟨_, rfl, rfl⟩ := advance_eq_some starts
          obtain ⟨_, _, _, _, rfl⟩ := (LooksAhead.statements _).behind readLater
          obtain ⟨_, rfl, rfl⟩ := advance_eq_some startsLater
          obtain ⟨between, rfl⟩ : ∃ between, number = earlier + (between + 1) :=
            ⟨number - earlier - 1, by omega⟩
          rw [statements_from_start read starts] at readLater
          obtain ⟨first, middle, readFirst, readLater⟩ := bind_eq_ok readLater
          obtain ⟨others, last, readOthers, ended⟩ := bind_eq_ok readLater
          cases ended
          obtain ⟨_, _, _, rfl⟩ := statement_enters readFirst
          have noted := statements_keeps readOthers (entryAfter_isSome isMain)
          exact noted

/-- The main declarations that a call gives are accounted for by the entry point. -/
theorem Call.run_mains {outcome : Except ParseError Node}
    (ran : call.run (.between source entry past ahead) = (outcome, behind)) :
    mains outcome.toOption.toList + entry.toList.length ≤ behind.entryPoint.toList.length := by
  -- Other steps than statements give no main declaration and leave the entry point alone.
  have still {step : Parse Node} (parallel : Parallel .zero step step)
      (inner : Ensures step Inner) (obtainable : Ensures step Node.Obtainable)
      (ran : step (.between source entry past ahead) = (outcome, behind)) :
      mains outcome.toOption.toList + entry.toList.length ≤ behind.entryPoint.toList.length := by
    obtain ⟨taken, rest, rfl, rfl⟩ := parallel.behind ran
    cases outcome with
    | error error => exact (Nat.zero_add _).le
    | ok tree =>
        obtain ⟨noProgram, noMain⟩ := inner.result ran
        change mains [tree] + _ ≤ _
        rw [Node.mains_of_allowed (obtainable.result ran).allowed noProgram, noMain]
        exact (Nat.zero_add _).le
  have obtainable := call.ensures
  cases call with
  | statement head => exact statement_mains ran
  | expression head =>
      have inner : Ensures (Parse.expression head) Inner :=
        .after fun fuel => inner_expressionWith fuel head
      exact still (.expression head) inner obtainable ran
  | block opening =>
      have inner : Ensures (Parse.block opening) Inner :=
        .after fun fuel => inner_blockOf opening _
      exact still (.block opening) inner obtainable ran
  | program =>
      have ran := (bind_of_ok ahead_between).symm.trans ran
      cases read : statements ahead.length (.between source entry past ahead) with
      | mk found middle =>
          have counted := statements_mains read
          cases found with
          | error error =>
              rw [bind_of_error read] at ran
              cases ran
              exact counted
          | ok nodes =>
              rw [bind_of_ok read, bind_of_ok (show extent middle = (.ok _, middle) from rfl),
                build_eq_checked] at ran
              cases made : (Node.program nodes middle.source.extent).checked with
              | error error =>
                  rw [made] at ran
                  cases ran
                  exact (Nat.add_le_add_right (Nat.zero_le _) _).trans counted
              | ok tree =>
                  obtain ⟨_, rfl⟩ := (Node.checked_eq_ok_iff _ _).mp made
                  rw [made] at ran
                  cases ran
                  change mains [Node.program nodes _] + _ ≤ _
                  rw [Node.mains_singleton]
                  exact counted

/-! ### Call after call -/

private theorem Call.runAll_append (calls others : List Call) (parser : Parser) :
    (Call.runAll (calls ++ others) parser).2 =
      (Call.runAll others (Call.runAll calls parser).2).2 := by
  induction calls generalizing parser with
  | nil => rfl
  | cons call calls inductionHypothesis => exact inductionHypothesis (call.run parser).2

theorem Call.runAll_between (calls : List Call) (source : Source) (entry : Option Location)
    (past ahead : List Token) :
    ∃ found taken rest, (Call.runAll calls (.between source entry past ahead)).2 =
      .between source found taken rest := by
  induction calls generalizing entry past ahead with
  | nil => exact ⟨entry, past, ahead, rfl⟩
  | cons call calls inductionHypothesis =>
      obtain ⟨found, taken, rest, _, stands⟩ := call.looksAhead.behind (Prod.eta _).symm
      change ∃ found taken rest, (Call.runAll calls
        (call.run (.between source entry past ahead)).2).2 = .between source found taken rest
      rw [stands]
      exact inductionHypothesis _ _ _

/-- The main declarations that several calls give are accounted for by the entry point. -/
theorem Call.runAll_mains (calls : List Call) (source : Source) (entry : Option Location)
    (past ahead : List Token) :
    mains ((Call.runAll calls (.between source entry past ahead)).1.filterMap Except.toOption) +
        entry.toList.length ≤
      (Call.runAll calls (.between source entry past ahead)).2.entryPoint.toList.length := by
  induction calls generalizing entry past ahead with
  | nil => exact (Nat.zero_add _).le
  | cons call calls inductionHypothesis =>
      cases ran : call.run (.between source entry past ahead) with
      | mk outcome behind =>
          have counted := Call.run_mains ran
          obtain ⟨found, taken, rest, rfl, rfl⟩ := call.looksAhead.behind ran
          have countedRest := inductionHypothesis found (taken.reverse ++ past) rest
          rw [Call.runAll, ran]
          cases outcome with
          | error error =>
              change mains [] + _ ≤ found.toList.length at counted
              change mains _ + _ ≤ _
              simp only [List.filterMap_cons, Except.toOption]
              omega
          | ok tree =>
              change mains [tree] + _ ≤ found.toList.length at counted
              simp only [List.filterMap_cons, Except.toOption]
              rw [Node.mains_cons]
              omega

private theorem toList_length_le_one {Item : Type} (found : Option Item) :
    found.toList.length ≤ 1 := by
  cases found with
  | none => exact Nat.zero_le 1
  | some item => exact Nat.le_refl 1

private theorem StartMain.notes (starts : StartMain calls (.between source entry past ahead)) :
    (Call.runAll calls (.between source entry past ahead)).2.entryPoint.isSome = true := by
  obtain ⟨earlier, call, later, number, head, here, rfl, starts, isMain⟩ := starts
  obtain ⟨found, taken, rest, stands⟩ := Call.runAll_between earlier source entry past ahead
  rw [stands] at starts
  have noted := starts.notes isMain
  obtain ⟨found, taken, rest, _, behind⟩ := call.looksAhead.behind (Prod.eta _).symm
  rw [behind] at noted
  rw [Call.runAll_append, stands]
  change (Call.runAll later (call.run _).2).2.entryPoint.isSome = true
  rw [behind]
  exact isSome_of_accounted (Call.runAll_mains later source found _ rest) (.inr noted)

/-- A parser accepts at most one entry point in its whole life.  Over all its calls there is at most
one main declaration in the trees that they give.  Once a main declaration was started, in the same
call or in an earlier one and whatever became of it, the next one fails at its keyword, and the
parser is left right behind the keyword.  So a text with two main declarations is no program, and
the second one is reported if everything before it can be read. -/
theorem Call.runAll_entryPoint :
    (∀ (source : Source) (tokens : List Token) (calls : List Call),
      mains ((Call.runAll calls (.ofTokens source tokens)).1.filterMap Except.toOption) ≤ 1) ∧
    (∀ (source : Source) (tokens : List Token) (calls : List Call) (call : Call) (number : Nat)
      (head : Token) (here : Parser),
      let parser := (Call.runAll calls (.ofTokens source tokens)).2
      head.kind = .keyword .mainWord → call.Starts parser number head here →
      (StartMain calls (.ofTokens source tokens) ∨
        ∃ earlier < number, ∃ start there,
          start.kind = .keyword .mainWord ∧ call.Starts parser earlier start there) →
      call.run parser = (.error (.duplicateEntry head.position), here)) ∧
    (∀ (content : String) (tree : Node), parse content = .ok tree → mains [tree] ≤ 1) ∧
    ∀ (content : String) (tokens : List Token) (number : Nat) (nodes : List Node) (head : Token)
      (between here : Parser), Token.ofText? true content = .ok tokens →
      statements number (.ofTokens (.ofString content) tokens) = (.ok nodes, between) →
      nodes.any Node.isMain = true →
      advance between = (.ok (some head), here) → head.kind = .keyword .mainWord →
      parse content = .error (.duplicateEntry head.position) := by
  refine ⟨?_, ?_, ?_, ?_⟩
  · intro source tokens calls
    exact (Call.runAll_mains calls source none [] tokens).trans (toList_length_le_one _)
  · intro source tokens calls call number head here parser isMain starts before
    obtain ⟨found, taken, rest, stands⟩ := Call.runAll_between calls source none [] tokens
    have isParser : parser = .between source found taken rest := stands
    rw [isParser] at starts before ⊢
    apply starts.refused isMain
    rcases before with startsBefore | ⟨earlier, before, start, there, isFirst, startsBefore⟩
    · have noted := StartMain.notes
        (show StartMain calls (.between source none [] tokens) from startsBefore)
      rw [stands] at noted
      obtain ⟨_, _, _, _, rfl, kept, _⟩ := starts.run_eq
      exact kept noted
    · exact startsBefore.notes_later isFirst starts before
  · intro content tree parsed
    cases read : Token.ofText? true content with
    | error error =>
        rw [parse_eq_of_stray read] at parsed
        cases parsed
    | ok tokens =>
        rw [parse_eq_of_tokens read] at parsed
        have ran : Call.program.run (.between (.ofString content) none [] tokens) =
            (.ok tree, (Parse.program (.ofTokens (.ofString content) tokens)).2) :=
          Prod.ext parsed rfl
        exact (Call.run_mains ran).trans (toList_length_le_one _)
  · intro content tokens number nodes head between here read readNodes hasMain starts isMain
    rw [Parser.ofTokens_eq_between] at readNodes
    have startsMain : Call.program.Starts (.between (.ofString content) none [] tokens) number head
        here := .program readNodes starts
    have positive : 0 < mains nodes := Node.mains_pos hasMain
    have noted : between.entryPoint.isSome = true :=
      isSome_of_accounted (statements_mains readNodes) (.inl positive)
    obtain ⟨_, _, _, _, rfl⟩ := (LooksAhead.statements _).behind readNodes
    obtain ⟨_, rfl, rfl⟩ := advance_eq_some starts
    rw [parse_eq_of_tokens read]
    exact congrArg Prod.fst (startsMain.refused isMain noted)

/-- The first main declaration fails at the end of the text and is remembered all the same. -/
theorem Call.runAll_entryPoint_again :
    let first : Token := ⟨.keyword .mainWord, "main", ⟨1, 0, 0, 4⟩⟩
    let second : Token := ⟨.keyword .mainWord, "main", ⟨2, 0, 7, 11⟩⟩
    let parser := (Call.runAll [.program] (.ofTokens (.ofString "main") [first])).2
    (Call.statement second).run parser = (.error (.duplicateEntry ⟨2, 0⟩), parser) ∧
      parse "main a\nmain b" = .error (.duplicateEntry ⟨2, 0⟩) := by
  intro first second parser
  have starts : Call.program.Starts (.ofTokens (.ofString "main") [first]) 0 first
      (.between (.ofString "main") none [first] []) := .program rfl rfl
  have startMain : StartMain [.program] (.ofTokens (.ofString "main") [first]) :=
    ⟨[], .program, [], 0, first, _, rfl, starts, rfl⟩
  have refused := Call.runAll_entryPoint.2.1 (.ofString "main") [first] [.program]
    (.statement second) 0 second parser rfl (.statement second parser) (.inl startMain)
  refine ⟨refused, ?_⟩
  let start : Token := ⟨.keyword .mainWord, "main", ⟨1, 0, 0, 4⟩⟩
  let name : Token := ⟨.identifier, "a", ⟨1, 5, 5, 6⟩⟩
  let again : Token := ⟨.identifier, "b", ⟨2, 5, 12, 13⟩⟩
  have read : Token.ofText? true "main a\nmain b" = .ok [start, name, second, again] := by
    decide +kernel
  exact Call.runAll_entryPoint.2.2.2 "main a\nmain b" _ 1 _ second _ _ read rfl rfl rfl rfl

end Parse

end SprigCompiler
