import SprigCompiler.Proofs.Parser.Between

/-!
What a step makes of the tokens that it takes.

A step that succeeds has taken some of the tokens ahead, in order, and has skipped none.  A relation
between these tokens and the result is carried from step to step.
-/

namespace SprigCompiler.Parse

variable {Result First Second : Type} {relation : List Token → Result → Prop}

/-- Whether a step, where it succeeds, takes tokens from the ones ahead that are related to its
result. -/
structure Yields (step : Parse Result) (relation : List Token → Result → Prop) : Prop where
  behind : ∀ {source : Source} {entry : Option Location} {past ahead : List Token}
    {result : Result} {behind : Parser},
    step (.between source entry past ahead) = (.ok result, behind) →
      ∃ found taken rest, ahead = taken ++ rest ∧
        behind = .between source found (taken.reverse ++ past) rest ∧ relation taken result

protected theorem Yields.pure {result : Result} (holds : relation [] result) :
    Yields (pure result) relation := by
  constructor
  intro source entry past ahead found behind ran
  cases ran
  exact ⟨entry, [], ahead, rfl, rfl, holds⟩

protected theorem Yields.fail (error : ParseError) : Yields (fail error) relation := by
  constructor
  intro source entry past ahead result behind ran
  cases ran

protected theorem Yields.unexpected (token : Token) : Yields (unexpected token) relation :=
  .fail (.unexpected token)

protected theorem Yields.unexpectedEnd : Yields unexpectedEnd relation := by
  constructor
  intro source entry past ahead result behind ran
  cases ran

protected theorem Yields.build {relation : List Token → Node → Prop} {node : Node}
    (holds : relation [] node) : Yields (build node) relation := by
  constructor
  intro source entry past ahead result behind ran
  obtain ⟨_, rfl, rfl⟩ := build_eq_ok ran
  exact ⟨entry, [], ahead, rfl, rfl, holds⟩

protected theorem Yields.advance : Yields advance fun taken token => taken = token.toList := by
  constructor
  intro source entry past ahead result behind ran
  cases ahead with
  | nil =>
      rw [advance_nil] at ran
      cases ran
      exact ⟨entry, [], [], rfl, rfl, rfl⟩
  | cons token ahead =>
      rw [advance_cons] at ran
      cases ran
      exact ⟨entry, [token], ahead, rfl, rfl, rfl⟩

protected theorem Yields.next : Yields next fun taken token => taken = [token] := by
  constructor
  intro source entry past ahead token behind ran
  obtain ⟨rest, rfl, rfl⟩ := next_eq_ok ran
  exact ⟨entry, [token], rest, rfl, rfl, rfl⟩

protected theorem Yields.takeIf (condition : Token → Bool) :
    Yields (takeIf condition) fun taken token =>
      taken = token.toList ∧ ∀ found ∈ token, condition found = true := by
  constructor
  intro source entry past ahead result behind ran
  cases result with
  | none =>
      obtain ⟨rfl, _⟩ := takeIf_eq_none ran
      exact ⟨entry, [], ahead, rfl, rfl, rfl, nofun⟩
  | some token =>
      obtain ⟨holds, rest, rfl, rfl⟩ := takeIf_eq_some ran
      refine ⟨entry, [token], rest, rfl, rfl, rfl, ?_⟩
      intro found isFound
      cases isFound
      exact holds

protected theorem Yields.mono {step : Parse Result} {weaker : List Token → Result → Prop}
    (yields : Yields step relation)
    (implies : ∀ taken result, relation taken result → weaker taken result) :
    Yields step weaker := by
  constructor
  intro source entry past ahead result behind ran
  obtain ⟨found, taken, rest, split, stands, holds⟩ := yields.behind ran
  exact ⟨found, taken, rest, split, stands, implies taken result holds⟩

protected theorem Yields.bind {step : Parse First} {rest : First → Parse Second}
    {early : List Token → First → Prop} {late : List Token → Second → Prop}
    (first : Yields step early)
    (second : ∀ taken result, early taken result →
      Yields (rest result) fun more final => late (taken ++ more) final) :
    Yields (step >>= rest) late := by
  constructor
  intro source entry past ahead final behind ran
  obtain ⟨result, middle, ranFirst, ranSecond⟩ := bind_eq_ok ran
  obtain ⟨found, taken, ahead, rfl, rfl, holds⟩ := first.behind ranFirst
  obtain ⟨last, more, ahead, rfl, rfl, holds⟩ := (second taken result holds).behind ranSecond
  exact ⟨last, taken ++ more, ahead, by simp, by simp, holds⟩

/-- A step that leaves the parser as it is takes nothing. -/
theorem Yields.still_bind {step : Parse First} {rest : First → Parse Result}
    (still : ∀ parser, (step parser).2 = parser)
    (second : ∀ result, Yields (rest result) relation) : Yields (step >>= rest) relation := by
  constructor
  intro source entry past ahead final behind ran
  obtain ⟨result, middle, ranFirst, ranSecond⟩ := bind_eq_ok ran
  have same : middle = .between source entry past ahead := by
    rw [← still (.between source entry past ahead), ranFirst]
  rw [same] at ranSecond
  exact (second result).behind ranSecond

/-- A step that takes nothing but may fail, or change what the parser remembers. -/
theorem Yields.check_bind {step : Parse First} {rest : First → Parse Result}
    {holds : First → Prop} (first : Yields step fun taken result => taken = [] ∧ holds result)
    (second : ∀ result, holds result → Yields (rest result) relation) :
    Yields (step >>= rest) relation := by
  refine .bind first fun taken result checked => ?_
  rw [checked.1]
  exact second result checked.2

theorem Yields.next_bind {rest : Token → Parse Result}
    (second : ∀ token, Yields (rest token) fun more => relation (token :: more)) :
    Yields (next >>= rest) relation := by
  refine .bind .next fun taken token single => ?_
  rw [single]
  exact second token

theorem Yields.advance_bind {rest : Option Token → Parse Result}
    (stops : Yields (rest none) relation)
    (goesOn : ∀ token, Yields (rest (some token)) fun more => relation (token :: more)) :
    Yields (advance >>= rest) relation := by
  refine .bind .advance fun taken found single => ?_
  rw [single]
  cases found with
  | none => exact stops
  | some token => exact goesOn token

theorem Yields.takeIf_bind {condition : Token → Bool} {rest : Option Token → Parse Result}
    (stops : Yields (rest none) relation)
    (goesOn : ∀ token, condition token = true →
      Yields (rest (some token)) fun more => relation (token :: more)) :
    Yields (takeIf condition >>= rest) relation := by
  refine .bind (.takeIf condition) fun taken found single => ?_
  rw [single.1]
  cases found with
  | none => exact stops
  | some token => exact goesOn token (single.2 token rfl)

/-- What was peeked at is what is taken next, if anything is. -/
theorem Yields.peekKind_bind {rest : Option TokenKind → Parse Result}
    (second : ∀ peeked, Yields (rest peeked) fun taken result =>
      (∀ token ∈ taken.head?, peeked = some token.kind) → relation taken result) :
    Yields (peekKind >>= rest) relation := by
  constructor
  intro source entry past ahead result behind ran
  rw [bind_of_ok peekKind_between] at ran
  obtain ⟨found, taken, rest, rfl, rfl, holds⟩ := (second _).behind ran
  refine ⟨found, taken, rest, rfl, rfl, holds ?_⟩
  intro token isFirst
  rw [List.head?_append, Option.mem_def.mp isFirst]
  rfl

protected theorem Yields.mapError {step : Parse Result} (change : ParseError → ParseError)
    (yields : Yields step relation) : Yields (step.mapError change) relation := by
  constructor
  intro source entry past ahead result behind ran
  exact yields.behind (mapError_eq_ok.mp ran)

end SprigCompiler.Parse
