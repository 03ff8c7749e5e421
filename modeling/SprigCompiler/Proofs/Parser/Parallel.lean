import SprigCompiler.Proofs.Parser.Chains
import SprigCompiler.Proofs.Tree.Shift

/-!
Two runs of a parser side by side.

What a step does depends only on the tokens that it takes and on the first one that it leaves, and
on the tokens before it only as far as they decide what a name means.  Where in the text the tokens
stand does not matter either: the results move with them.  So a run tells what another run does on
the same tokens further down another text, whatever stands behind the first token left.

A step that succeeds at the end of the tokens would also succeed in front of a token with which
every statement ends.
-/

namespace SprigCompiler.Parse

open Movable (move)

variable {Result First Second : Type} [Movable Result] [Movable First] [Movable Second]
  {shift : Shift} {past otherPast : List Token}

def lastForm : List Token → ApplicationForm
  | [] => .call
  | _ :: earlier => formAfter earlier

theorem formBehind_eq_lastForm (source : Source) (entry : Option Location)
    (past ahead : List Token) :
    formBehind (Parser.between source entry past ahead).cursor = lastForm past := by
  cases past with
  | nil => rfl
  | cons token earlier => exact formBehind_between

def SameContext (shift : Shift) (past otherPast : List Token) : Prop :=
  ∀ recent : List Token, lastForm (recent ++ past) = lastForm (move shift recent ++ otherPast)

theorem SameContext.taken (same : SameContext shift past otherPast) (taken : List Token) :
    SameContext shift (taken.reverse ++ past) ((move shift taken).reverse ++ otherPast) := by
  intro recent
  have whole := same (recent ++ taken.reverse)
  rw [Shift.move_append, Shift.move_reverse, List.append_assoc, List.append_assoc] at whole
  exact whole

theorem SameContext.refl (past : List Token) : SameContext .zero past past := by
  intro recent
  rw [Shift.move_zero_tokens]

/-- Whether other tokens can stand behind a run instead of those that do: they start with the same
token, or the run succeeded up to the end and they start with a token that ends statements. -/
def CanFollow (shift : Shift) (outcome : Except ParseError Result) (rest others : List Token) :
    Prop :=
  others.head? = move shift rest.head? ∨ outcome.isOk = true ∧ rest = [] ∧ Ends others

/-- Whether a step behind one past and another step behind another past do the same, up to moved
locations, on the same tokens.  Only an error can tell where the text ends. -/
def ParallelAt (shift : Shift) (past otherPast : List Token) (step other : Parse Result) : Prop :=
  ∀ (source : Source) (entry : Option Location) (ahead : List Token),
    ∃ (outcome : Except ParseError Result) (taken rest : List Token), ahead = taken ++ rest ∧
      step (.between source entry past ahead) =
        (outcome, .between source entry (taken.reverse ++ past) rest) ∧
      ∀ (otherSource : Source) (otherEntry : Option Location) (others : List Token),
        (outcome.isOk = false → otherSource.endPosition = move shift source.endPosition) →
        CanFollow shift outcome rest others →
        other (.between otherSource otherEntry otherPast (move shift taken ++ others)) =
          (move shift outcome,
            .between otherSource otherEntry ((move shift taken).reverse ++ otherPast) others)

/-- Whether two steps do the same behind all pasts that give names the same meaning. -/
def Parallel (shift : Shift) (step other : Parse Result) : Prop :=
  ∀ past otherPast, SameContext shift past otherPast → ParallelAt shift past otherPast step other

theorem ParallelAt.bind {step other : Parse First} {rest more : First → Parse Second}
    (first : ParallelAt shift past otherPast step other)
    (second : ∀ (taken : List Token) (result : First),
      ParallelAt shift (taken.reverse ++ past) ((move shift taken).reverse ++ otherPast)
        (rest result) (more (move shift result))) :
    ParallelAt shift past otherPast (step >>= rest) (other >>= more) := by
  intro source entry ahead
  obtain ⟨outcome, taken, behind, rfl, ran, parallel⟩ := first source entry ahead
  cases outcome with
  | error error =>
      refine ⟨.error error, taken, behind, rfl, bind_of_error ran, ?_⟩
      intro otherSource otherEntry others ends follows
      exact bind_of_error (parallel otherSource otherEntry others ends follows)
  | ok result =>
      obtain ⟨outcome, further, left, rfl, ranRest, parallelRest⟩ :=
        second taken result source entry behind
      refine ⟨outcome, taken ++ further, left, (List.append_assoc _ _ _).symm, ?_, ?_⟩
      · rw [bind_of_ok ran, ranRest, List.reverse_append, List.append_assoc]
      · intro otherSource otherEntry others ends follows
        -- The first step sees what the second one takes, or what stands behind both.
        have followsFirst : CanFollow shift (.ok result : Except ParseError First)
            (further ++ left) (move shift further ++ others) := by
          cases further with
          | nil =>
              rcases follows with sameHead | ⟨_, isEmpty, ended⟩
              · exact .inl sameHead
              · exact .inr ⟨rfl, isEmpty, ended⟩
          | cons token further => exact .inl rfl
        have ranFirst := parallel otherSource otherEntry _ (fun failed => Bool.noConfusion failed) followsFirst
        rw [Shift.move_append, List.append_assoc, bind_of_ok ranFirst,
          parallelRest otherSource otherEntry others ends follows, List.reverse_append,
          List.append_assoc]

protected theorem Parallel.bind {step other : Parse First} {rest more : First → Parse Second}
    (first : Parallel shift step other)
    (second : ∀ result, Parallel shift (rest result) (more (move shift result))) :
    Parallel shift (step >>= rest) (other >>= more) := by
  intro past otherPast same
  refine (first past otherPast same).bind ?_
  intro taken result
  exact second result _ _ (same.taken taken)

theorem ParallelAt.still {step other : Parse Result} {outcome : Except ParseError Result}
    (stays : ∀ parser, step parser = (outcome, parser))
    (otherStays : ∀ parser, other parser = (move shift outcome, parser)) :
    ParallelAt shift past otherPast step other := by
  intro source entry ahead
  refine ⟨outcome, [], ahead, rfl, stays _, ?_⟩
  intro otherSource otherEntry others _ _
  exact otherStays _

theorem Parallel.still {step other : Parse Result} {outcome : Except ParseError Result}
    (stays : ∀ parser, step parser = (outcome, parser))
    (otherStays : ∀ parser, other parser = (move shift outcome, parser)) :
    Parallel shift step other :=
  fun _ _ _ => .still stays otherStays

protected theorem Parallel.pure (result : Result) :
    Parallel shift (pure result : Parse Result) (pure (move shift result)) :=
  .still (fun _ => rfl) (fun _ => rfl)

protected theorem Parallel.fail (error : ParseError) :
    Parallel shift (fail error : Parse Result) (fail (move shift error)) :=
  .still (fun _ => rfl) (fun _ => rfl)

protected theorem Parallel.unexpected (token : Token) :
    Parallel shift (unexpected token : Parse Result) (unexpected (move shift token)) :=
  .fail (.unexpected token)

protected theorem Parallel.unexpectedEnd :
    Parallel shift (unexpectedEnd : Parse Result) unexpectedEnd := by
  intro past otherPast _ source entry ahead
  refine ⟨.error (.unexpectedEnd source.endPosition), [], ahead, rfl, rfl, ?_⟩
  intro otherSource otherEntry others ends _
  change (Except.error (ParseError.unexpectedEnd otherSource.endPosition), _) = _
  rw [ends rfl]
  rfl

theorem build_eq_checked (node : Node) (parser : Parser) :
    build node parser = (node.checked.mapError .invalidNode, parser) := by
  unfold build
  cases node.checked <;> rfl

protected theorem ParallelAt.build (node : Node) :
    ParallelAt shift past otherPast (build node) (build (move shift node)) := by
  refine .still (build_eq_checked node) ?_
  intro parser
  rw [build_eq_checked, Shift.checked_move]
  cases node.checked <;> rfl

protected theorem Parallel.build (node : Node) :
    Parallel shift (build node) (build (move shift node)) :=
  fun _ _ _ => .build node

protected theorem Parallel.mapError {step other : Parse Result}
    {change otherChange : ParseError → ParseError}
    (parallel : Parallel shift step other)
    (same : ∀ error, otherChange (move shift error) = move shift (change error)) :
    Parallel shift (step.mapError change) (other.mapError otherChange) := by
  intro past otherPast context source entry ahead
  obtain ⟨outcome, taken, rest, rfl, ran, runs⟩ := parallel past otherPast context source entry ahead
  refine ⟨outcome.mapError change, taken, rest, rfl, ?_, ?_⟩
  · unfold mapError
    rw [ran]
    cases outcome <;> rfl
  · intro otherSource otherEntry others ends follows
    have canFollow : CanFollow shift outcome rest others := by
      cases outcome <;> exact follows
    have endsInside : outcome.isOk = false →
        otherSource.endPosition = move shift source.endPosition := by
      cases outcome <;> exact ends
    unfold mapError
    rw [runs otherSource otherEntry others endsInside canFollow]
    cases outcome with
    | ok result => rfl
    | error error =>
        change (Except.error (otherChange (move shift error)), _) = _
        rw [same]
        rfl

protected theorem Parallel.next : Parallel shift next next := by
  intro past otherPast _ source entry ahead
  cases ahead with
  | nil =>
      refine ⟨_, [], [], rfl, next_nil, ?_⟩
      intro otherSource otherEntry others ends follows
      rcases follows with sameHead | ⟨isOk, _⟩
      · rw [List.head?_eq_none_iff.mp sameHead]
        refine next_nil.trans ?_
        rw [ends rfl]
        rfl
      · cases isOk
  | cons token rest =>
      refine ⟨_, [token], rest, rfl, next_cons, ?_⟩
      intro otherSource otherEntry others _ _
      exact next_cons

/-- A step that goes on behind the next token, wherever it has come from. -/
theorem ParallelAt.next_bind {rest more : Token → Parse Result}
    (goesOn : ∀ token, ParallelAt shift (token :: past) (move shift token :: otherPast)
      (rest token) (more (move shift token))) :
    ParallelAt shift past otherPast (next >>= rest) (next >>= more) := by
  intro source entry ahead
  cases ahead with
  | nil =>
      refine ⟨.error (.unexpectedEnd source.endPosition), [], [], rfl, bind_of_error next_nil, ?_⟩
      intro otherSource otherEntry others ends follows
      rcases follows with sameHead | ⟨isOk, _⟩
      · rw [List.head?_eq_none_iff.mp sameHead]
        refine (bind_of_error next_nil).trans ?_
        rw [ends rfl]
        rfl
      · cases isOk
  | cons token ahead =>
      obtain ⟨outcome, taken, behind, rfl, ran, parallel⟩ := goesOn token source entry ahead
      refine ⟨outcome, token :: taken, behind, rfl, ?_, ?_⟩
      · rw [bind_of_ok next_cons, List.reverse_cons, List.append_assoc]
        exact ran
      · intro otherSource otherEntry others ends follows
        rw [Shift.move_cons, List.cons_append, bind_of_ok next_cons, List.reverse_cons,
          List.append_assoc]
        exact parallel otherSource otherEntry others ends follows

protected theorem Parallel.takeIf {condition : Token → Bool}
    (same : ∀ token, condition (move shift token) = condition token)
    (fails : ∀ token, endsUnion token = true → condition token = false) :
    Parallel shift (takeIf condition) (takeIf condition) := by
  intro past otherPast _ source entry ahead
  cases ahead with
  | nil =>
      refine ⟨_, [], [], rfl, takeIf_nil, ?_⟩
      intro otherSource otherEntry others _ follows
      apply takeIf_of_head
      intro first (isFirst : first ∈ others.head?)
      rcases follows with sameHead | ⟨_, _, ended⟩
      · rw [sameHead] at isFirst
        cases isFirst
      · exact fails first (ended first isFirst)
  | cons token rest =>
      cases holds : condition token with
      | true =>
          refine ⟨_, [token], rest, rfl, takeIf_of_true holds, ?_⟩
          intro otherSource otherEntry others _ _
          exact takeIf_of_true ((same token).trans holds)
      | false =>
          refine ⟨_, [], token :: rest, rfl, takeIf_of_false holds, ?_⟩
          intro otherSource otherEntry others _ follows
          apply takeIf_of_head
          intro first (isFirst : first ∈ others.head?)
          rcases follows with sameHead | ⟨_, isEmpty, _⟩
          · rw [sameHead] at isFirst
            cases isFirst
            exact (same token).trans holds
          · cases isEmpty

/-- A step that fails where no token is left, and otherwise goes on from the first one. -/
theorem Parallel.advance_bind {rest more : Option Token → Parse Result} {error : ParseError}
    (fails : rest none = fail error) (otherFails : more none = fail (move shift error))
    (goesOn : ∀ token, Parallel shift (rest (some token)) (more (some (move shift token)))) :
    Parallel shift (advance >>= rest) (advance >>= more) := by
  intro past otherPast same source entry ahead
  cases ahead with
  | nil =>
      refine ⟨.error error, [], [], rfl, ?_, ?_⟩
      · rw [bind_of_ok advance_nil, fails]
        rfl
      · intro otherSource otherEntry others _ follows
        rcases follows with sameHead | ⟨isOk, _⟩
        · rw [List.head?_eq_none_iff.mp sameHead]
          refine (bind_of_ok advance_nil).trans ?_
          rw [otherFails]
          rfl
        · cases isOk
  | cons token ahead =>
      obtain ⟨outcome, taken, behind, rfl, ran, parallel⟩ :=
        goesOn token _ _ (same.taken [token]) source entry ahead
      refine ⟨outcome, token :: taken, behind, rfl, ?_, ?_⟩
      · rw [bind_of_ok advance_cons, List.reverse_cons, List.append_assoc]
        exact ran
      · intro otherSource otherEntry others ends follows
        rw [Shift.move_cons, List.cons_append, bind_of_ok advance_cons, List.reverse_cons,
          List.append_assoc]
        exact parallel otherSource otherEntry others ends follows

theorem Parallel.peekKind_bind {rest more : Option TokenKind → Parse Result}
    (parallel : ∀ kind, Parallel shift (rest kind) (more kind))
    (ended : ∀ token, endsUnion token = true → more (some token.kind) = more none) :
    Parallel shift (peekKind >>= rest) (peekKind >>= more) := by
  intro past otherPast same source entry ahead
  obtain ⟨outcome, taken, behind, split, ran, runs⟩ :=
    parallel (ahead.head?.map Token.kind) past otherPast same source entry ahead
  refine ⟨outcome, taken, behind, split, (bind_of_ok peekKind_between).trans ran, ?_⟩
  intro otherSource otherEntry others ends follows
  -- Both runs see the same kind, or the first sees none and the second one that ends statements.
  have sameBranch : more ((move shift taken ++ others).head?.map Token.kind) =
      more (ahead.head?.map Token.kind) := by
    subst split
    cases taken with
    | cons token taken => rfl
    | nil =>
        rcases follows with sameHead | ⟨_, rfl, ended'⟩
        · rw [Shift.move_nil, List.nil_append, List.nil_append, sameHead]
          cases behind <;> rfl
        · cases others with
          | nil => rfl
          | cons first others => exact ended first (ended' first rfl)
  apply (bind_of_ok peekKind_between).trans
  rw [sameBranch]
  exact runs otherSource otherEntry others ends follows

/-- A step that runs in parallel with itself takes some of the tokens ahead. -/
theorem Parallel.behind {step : Parse Result} (parallel : Parallel .zero step step)
    {source : Source} {entry : Option Location} {ahead : List Token}
    {outcome : Except ParseError Result} {behind : Parser}
    (ran : step (.between source entry past ahead) = (outcome, behind)) :
    ∃ taken rest, ahead = taken ++ rest ∧
      behind = .between source entry (taken.reverse ++ past) rest := by
  obtain ⟨found, taken, rest, split, stands, _⟩ :=
    parallel past past (.refl past) source entry ahead
  rw [ran] at stands
  exact ⟨taken, rest, split, congrArg Prod.snd stands⟩

omit [Movable First] [Movable Second] in
theorem bind_congr_of_ok {step : Parse First} {rest other : First → Parse Second}
    {parser : Parser}
    (same : ∀ result behind, step parser = (.ok result, behind) →
      rest result behind = other result behind) :
    (step >>= rest) parser = (step >>= other) parser := by
  cases ran : step parser with
  | mk outcome behind =>
      cases outcome with
      | ok result => rw [bind_of_ok ran, bind_of_ok ran, same result behind ran]
      | error error => rw [bind_of_error ran, bind_of_error ran]

theorem between_injective {source : Source} {entry : Option Location}
    {ahead taken rest other otherRest : List Token} (split : ahead = taken ++ rest)
    (otherSplit : ahead = other ++ otherRest)
    (same : Parser.between source entry (taken.reverse ++ past) rest =
      Parser.between source entry (other.reverse ++ past) otherRest) :
    taken = other ∧ rest = otherRest := by
  have lengths : taken.length = other.length := by
    have consumed := congrArg (·.cursor.consumed) same
    simpa [Parser.between] using consumed
  exact List.append_inj (split.symm.trans otherSplit) lengths

def Saturates (step : Nat → Parse Result) : Prop :=
  ∀ (source : Source) (entry : Option Location) (past ahead : List Token) (count : Nat),
    ahead.length ≤ count →
      step count (.between source entry past ahead) =
        step ahead.length (.between source entry past ahead)

omit [Movable First] [Movable Second] in
theorem Saturates.bind {step : Nat → Parse First} (saturates : Saturates step)
    (rest : First → Parse Second) : Saturates fun count => step count >>= rest :=
  fun source entry past ahead count enough =>
    bind_of_eq (saturates source entry past ahead count enough) rest

theorem ParallelAt.ahead_bind {step other : Nat → Parse Result}
    (parallel : ∀ count, ParallelAt shift past otherPast (step count) (other count))
    (saturates : Saturates step) (otherSaturates : Saturates other) :
    ParallelAt shift past otherPast (ahead >>= step) (ahead >>= other) := by
  intro source entry ahead
  obtain ⟨outcome, taken, rest, split, ran, _⟩ := parallel ahead.length source entry ahead
  refine ⟨outcome, taken, rest, split, (bind_of_ok ahead_between).trans ran, ?_⟩
  intro otherSource otherEntry others ends follows
  -- A count that is enough for both runs.
  let count := max ahead.length (move shift taken ++ others).length
  obtain ⟨outcome', taken', rest', split', ran', runs⟩ := parallel count source entry ahead
  rw [saturates source entry past ahead count (Nat.le_max_left _ _), ran] at ran'
  obtain ⟨rfl, stands⟩ := Prod.mk.inj ran'
  obtain ⟨rfl, rfl⟩ := between_injective split split' stands
  apply (bind_of_ok ahead_between).trans
  rw [← otherSaturates _ _ _ _ count (Nat.le_max_right _ _)]
  exact runs otherSource otherEntry others ends follows

theorem Parallel.ahead_bind {step other : Nat → Parse Result}
    (parallel : ∀ count, Parallel shift (step count) (other count)) (saturates : Saturates step)
    (otherSaturates : Saturates other) :
    Parallel shift (ahead >>= step) (ahead >>= other) := by
  intro past otherPast same
  exact .ahead_bind (fun count => parallel count past otherPast same) saturates otherSaturates

end SprigCompiler.Parse
