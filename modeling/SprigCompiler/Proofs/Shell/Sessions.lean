import SprigCompiler.Proofs.Shell.Groups

/-!
What a session writes.

The events of a session over chunks of bytes are the rounds of its lines: the prompt, the chunks
that the read had to wait for, and what was written then.
-/

namespace SprigCompiler.Shell

/-- A prompt, and the chunks that the read behind it had to wait for. -/
def asking (prompt : String) (handed : Nat) : List Event :=
  .output prompt :: List.replicate handed .handed

def Round.events (handed : Nat) (round : Round) : List Event :=
  asking round.prompt handed ++ [.output round.output, .errors round.errors]

/-- Whether an event shows: all do but those that write nothing. -/
def Event.shows : Event → Bool
  | .output text | .errors text => !text.isEmpty
  | .handed | .failed _ => true

def Event.outputText : Event → String
  | .output text => text
  | _ => ""

def Event.errorsText : Event → String
  | .errors text => text
  | _ => ""

def textOf (view : Event → String) (events : List Event) : String := String.join (events.map view)

variable {options : Options} {lines front rest done : List String} {line pending : String}
  {rounds : List Round} {round : Round} {handed : Nat} {events others : List Event}

private theorem pending_of_mem_waiting (isRound : round ∈ waiting done front) :
    ∃ count < front.length, round.pending = String.join (done ++ front.take count) := by
  induction front generalizing done with
  | nil => cases isRound
  | cons line front inductionHypothesis =>
      rcases List.mem_cons.mp isRound with rfl | isLater
      · exact ⟨0, Nat.succ_pos _, by rw [List.take_zero, List.append_nil]⟩
      · obtain ⟨count, within, isPending⟩ := inductionHypothesis isLater
        refine ⟨count + 1, Nat.succ_lt_succ within, ?_⟩
        rw [isPending, List.take_succ_cons, ← List.append_cons]

private theorem filterMap_line?_waiting (done front : List String) :
    (waiting done front).filterMap Round.line? = front := by
  induction front generalizing done with
  | nil => rfl
  | cons line front inductionHypothesis =>
      exact congrArg (line :: ·) (inductionHypothesis _)

/-- Before every read nothing is pending, or lines with an open block. -/
theorem Session.pending_open (session : Session options lines rounds) :
    ∀ round ∈ rounds, round.pending = "" ∨ ¬Complete round.pending := by
  have waits {lines : List String} {bound : Nat} (within : lines.length ≤ bound)
      (never : ∀ count, 0 < count → count < bound → ¬Complete (String.join (lines.take count))) :
      ∀ round ∈ waiting [] lines, round.pending = "" ∨ ¬Complete round.pending := by
    intro round isRound
    obtain ⟨count, inside, isPending⟩ := pending_of_mem_waiting isRound
    rw [List.nil_append] at isPending
    rw [isPending]
    rcases Nat.eq_zero_or_pos count with rfl | isSome
    · exact .inl rfl
    · exact .inr (never count isSome (Nat.lt_of_lt_of_le inside within))
  induction session with
  | ended => exact List.forall_mem_singleton.mpr (.inl rfl)
  | quit => exact List.forall_mem_singleton.mpr (.inl rfl)
  | blank _ _ inductionHypothesis =>
      exact List.forall_mem_cons.mpr ⟨.inl rfl, inductionHypothesis⟩
  | @group front rest last rounds starts isGroup _ inductionHypothesis =>
      have never : ∀ count, 0 < count → count < front.length + 1 →
          ¬Complete (String.join (front.take count)) := by
        intro count isSome before
        have incomplete := isGroup.least count isSome before
        rwa [List.take_append_of_le_length (Nat.le_of_lt_succ before)] at incomplete
      rw [List.forall_mem_append, List.forall_mem_cons]
      refine ⟨waits (Nat.le_succ _) never, ?_, inductionHypothesis⟩
      rcases Nat.eq_zero_or_pos front.length with isEmpty | isSome
      · rw [List.length_eq_zero_iff.mp isEmpty]
        exact .inl rfl
      · have whole := never front.length isSome (Nat.lt_succ_self _)
        rw [List.take_length] at whole
        exact .inr whole
  | @unfinished lines starts never =>
      rw [List.forall_mem_append]
      refine ⟨waits (Nat.le_refl _) fun count isSome before =>
        never count isSome (Nat.le_of_lt before), ?_⟩
      have isSome : 0 < lines.length := by
        obtain ⟨first, isFirst, _⟩ := starts
        exact List.length_pos_of_mem (List.mem_of_mem_head? isFirst)
      have whole := never lines.length isSome (Nat.le_refl _)
      rw [List.take_length] at whole
      exact List.forall_mem_singleton.mpr (.inr whole)

/-- Every line is read once, up to the one with which the user leaves. -/
theorem Session.lines_read (session : Session options lines rounds) :
    rounds.filterMap Round.line? <+: lines := by
  induction session with
  | ended => exact List.prefix_refl []
  | quit => exact (List.prefix_cons_inj _).mpr (List.nil_prefix)
  | blank _ _ inductionHypothesis => exact (List.prefix_cons_inj _).mpr inductionHypothesis
  | group _ _ _ inductionHypothesis =>
      rw [List.filterMap_append, filterMap_line?_waiting]
      exact (List.prefix_append_right_inj _).mpr ((List.prefix_cons_inj _).mpr inductionHypothesis)
  | unfinished =>
      rw [List.filterMap_append, filterMap_line?_waiting]
      exact (List.append_nil _).symm ▸ List.prefix_refl _

private theorem eventsOf_end (options : Options) (pending : String) (handed : Nat) :
    eventsOf options pending [⟨handed, []⟩] = asking (prompt pending) handed ++ [.output "\n"] := by
  rw [eventsOf]
  rfl

private theorem eventsOf_line {text : List Char} (isSome : text ≠ []) (handed : Nat)
    (rest : List Reading) :
    eventsOf options pending (⟨handed, encode text⟩ :: rest) =
      asking (prompt pending) handed ++
        match takeLine options pending (String.ofList text) with
        | .quit => []
        | .next pending output errors =>
            [.output output, .errors errors] ++ eventsOf options pending rest := by
  have noEnd : ¬(encode text).isEmpty = true := by
    rw [List.isEmpty_iff]
    exact encode_ne_nil isSome
  rw [eventsOf]
  dsimp only
  rw [if_neg noEnd, decode?_encode]
  rfl

/-- The events that show are those of the rounds. -/
theorem shown_eventsOf {reads : List Reading} {texts : List (List Char)}
    (same : reads.map Reading.bytes = texts.map encode ++ [[]])
    (nonempty : ∀ text ∈ texts, text ≠ []) :
    (eventsOf options pending reads).filter Event.shows =
      ((List.zipWith Round.events (reads.map Reading.handed)
        (roundsOf options pending (texts.map String.ofList))).flatten).filter Event.shows := by
  induction texts generalizing pending reads with
  | nil =>
      obtain ⟨⟨handed, bytes⟩, rfl, rfl⟩ := List.map_eq_singleton_iff.mp same
      rw [eventsOf_end, List.map_nil, roundsOf, List.map_singleton, List.zipWith_cons_cons,
        List.zipWith_nil_right, List.flatten_singleton, Round.events, List.filter_append,
        List.filter_append]
      rfl
  | cons text texts inductionHypothesis =>
      obtain ⟨isSome, others⟩ := List.forall_mem_cons.mp nonempty
      obtain ⟨⟨handed, bytes⟩, rest, rfl, rfl, behind⟩ := List.map_eq_cons_iff.mp same
      rw [eventsOf_line isSome, List.map_cons, List.map_cons, roundsOf]
      cases takeLine options pending (String.ofList text) with
      | quit =>
          dsimp only
          rw [List.zipWith_cons_cons, List.zipWith_nil_right, List.flatten_singleton,
            Round.events, List.filter_append, List.filter_append]
          rfl
      | next next output errors =>
          have later := @inductionHypothesis next rest behind others
          rw [List.zipWith_cons_cons, List.flatten_cons]
          change (asking (prompt pending) handed ++ ([Event.output output, .errors errors] ++
            eventsOf options next rest)).filter _ = _
          rw [← List.append_assoc, List.filter_append, later, ← List.filter_append]
          rfl

private theorem length_roundsOf_le (options : Options) (pending : String) (lines : List String) :
    (roundsOf options pending lines).length ≤ lines.length + 1 := by
  induction lines generalizing pending with
  | nil => exact Nat.le_refl _
  | cons line rest inductionHypothesis =>
      rw [roundsOf]
      split
      · exact Nat.le_add_left 1 _
      · exact Nat.succ_le_succ (inductionHypothesis _)

/-! ### Texts of events -/

theorem textOf_append (view : Event → String) (events others : List Event) :
    textOf view (events ++ others) = textOf view events ++ textOf view others := by
  unfold textOf
  rw [List.map_append, String.join_append]

private theorem textOf_shown {view : Event → String}
    (silent : ∀ event, event.shows = false → view event = "") (events : List Event) :
    textOf view (events.filter Event.shows) = textOf view events := by
  induction events with
  | nil => rfl
  | cons event events inductionHypothesis =>
      unfold textOf at inductionHypothesis ⊢
      rw [List.filter_cons]
      split
      · rw [List.map_cons, List.map_cons, String.join_cons, String.join_cons, inductionHypothesis]
      · rename_i hidden
        rw [List.map_cons, String.join_cons, silent event (Bool.not_eq_true _ ▸ hidden),
          String.empty_append, inductionHypothesis]

private theorem outputText_silent (event : Event) (hidden : event.shows = false) :
    event.outputText = "" := by
  cases event with
  | output text =>
      change text = ""
      simpa [Event.shows] using hidden
  | _ => rfl

private theorem errorsText_silent (event : Event) (hidden : event.shows = false) :
    event.errorsText = "" := by
  cases event with
  | errors text =>
      change text = ""
      simpa [Event.shows] using hidden
  | _ => rfl

private theorem textOf_round {view : Event → String} (wordless : view .handed = "") (handed : Nat)
    (round : Round) :
    textOf view (round.events handed) =
      view (.output round.prompt) ++ (view (.output round.output) ++
        view (.errors round.errors)) := by
  have waits : textOf view (List.replicate handed .handed) = "" := by
    unfold textOf
    induction handed with
    | zero => rfl
    | succ handed inductionHypothesis =>
        rw [List.replicate_succ, List.map_cons, String.join_cons, inductionHypothesis, wordless]
        rfl
  have asks : textOf view (asking round.prompt handed) = view (.output round.prompt) := by
    change String.join (view _ :: (List.replicate handed Event.handed).map view) = _
    rw [String.join_cons]
    change view _ ++ textOf view (List.replicate handed .handed) = _
    rw [waits, String.append_empty]
  unfold Round.events
  rw [textOf_append, asks]
  change view _ ++ String.join [view _, view _] = _
  rw [String.join_cons, String.join_cons, String.join_nil, String.append_empty]

private theorem textOf_rounds {view : Event → String} (wordless : view .handed = "")
    {counts : List Nat} (enough : rounds.length ≤ counts.length) :
    textOf view (List.zipWith Round.events counts rounds).flatten =
      String.join (rounds.map fun round =>
        view (.output round.prompt) ++ (view (.output round.output) ++
          view (.errors round.errors))) := by
  induction rounds generalizing counts with
  | nil =>
      rw [List.zipWith_nil_right]
      rfl
  | cons round rounds inductionHypothesis =>
      cases counts with
      | nil => cases enough
      | cons handed counts =>
          rw [List.zipWith_cons_cons, List.flatten_cons, textOf_append, textOf_round wordless,
            inductionHypothesis (Nat.le_of_succ_le_succ enough), List.map_cons, String.join_cons]

private theorem not_failed_of_mem {counts : List Nat} {event : Event}
    (isMember : event ∈ (List.zipWith Round.events counts rounds).flatten) (reason : String) :
    event ≠ .failed reason := by
  induction rounds generalizing counts with
  | nil =>
      rw [List.zipWith_nil_right] at isMember
      cases isMember
  | cons round rounds inductionHypothesis =>
      cases counts with
      | nil => cases isMember
      | cons handed counts =>
          rw [List.zipWith_cons_cons, List.flatten_cons, List.mem_append] at isMember
          rcases isMember with isHere | isLater
          · rintro rfl
            simp [Round.events, asking] at isHere
          · exact inductionHypothesis isLater

/-- No round breaks a session off. -/
theorem failure?_of_shown {counts : List Nat}
    (shown : events.filter Event.shows =
      ((List.zipWith Round.events counts rounds).flatten).filter Event.shows) :
    failure? events = none := by
  unfold failure?
  rw [List.findSome?_eq_none_iff]
  intro event isMember
  cases event with
  | failed reason =>
      have isShown : Event.failed reason ∈ events.filter Event.shows :=
        List.mem_filter.mpr ⟨isMember, rfl⟩
      rw [shown] at isShown
      exact absurd rfl (not_failed_of_mem (List.mem_filter.mp isShown).1 reason)
  | _ => rfl

/-- Whatever the options are and however the bytes of a text come in chunks, a session goes through
the rounds that the groups of the text's lines give, and no others.  It shows the prompt of each
round, waits for the chunks of its line, and then writes what the round writes; that is all the
output, and all the errors.  Before every read nothing is pending or lines with an open block, and
the lines are read in order, each once. -/
theorem session_splits (options : Options) {chunks : List (List UInt8)} {text : String}
    (decodes : decode? chunks.flatten = some text) :
    ∃ rounds, (∀ others, Session options (linesOf text) others ↔ others = rounds) ∧
      (session options chunks).filter Event.shows =
        ((List.zipWith Round.events ((readings 0 [] (signals chunks)).map Reading.handed)
          rounds).flatten).filter Event.shows ∧
      failure? (session options chunks) = none ∧
      textOf Event.outputText (session options chunks) =
        String.join (rounds.map fun round => round.prompt ++ round.output) ∧
      textOf Event.errorsText (session options chunks) = String.join (rounds.map Round.errors) ∧
      (∀ round ∈ rounds, round.pending = "" ∨
        ∃ position, compile round.pending = .error (.parse (.incomplete position))) ∧
      rounds.filterMap Round.line? <+: linesOf text := by
  have same := map_bytes_readings_signals decodes
  have nonempty : ∀ line ∈ lines text.toList, line ≠ [] := fun _ => ne_nil_of_mem_lines
  obtain ⟨rounds, isSession⟩ := exists_session options (linesOf text)
  have isRounds := isSession.eq_roundsOf
  have shown : (session options chunks).filter Event.shows =
      ((List.zipWith Round.events ((readings 0 [] (signals chunks)).map Reading.handed)
        rounds).flatten).filter Event.shows := by
    rw [isRounds]
    exact shown_eventsOf same nonempty
  have enough : rounds.length ≤ ((readings 0 [] (signals chunks)).map Reading.handed).length := by
    have counted := congrArg List.length same
    have bound := length_roundsOf_le options "" (linesOf text)
    rw [← isRounds] at bound
    simp only [linesOf, List.length_map, List.length_append, List.length_singleton]
      at counted bound ⊢
    omega
  refine ⟨rounds, fun others => ⟨fun other => ?_, ?_⟩, shown, failure?_of_shown shown, ?_, ?_, ?_,
    isSession.lines_read⟩
  · rw [other.eq_roundsOf, isRounds]
  · rintro rfl
    exact isSession
  · rw [← textOf_shown outputText_silent, shown, textOf_shown outputText_silent,
      textOf_rounds rfl enough]
    simp only [Event.outputText, String.append_empty]
  · rw [← textOf_shown errorsText_silent, shown, textOf_shown errorsText_silent,
      textOf_rounds rfl enough]
    simp only [Event.errorsText, String.empty_append]
  · intro round isRound
    refine (isSession.pending_open round isRound).imp_right fun incomplete => ?_
    unfold Complete at incomplete
    push Not at incomplete
    exact incomplete

/-- A function over two lines is written behind its last one, and nothing is said to a line behind
`:quit`. -/
theorem session_splits_function :
    let chunks := [encode "fun f = \x7b\n\x7d".toList, encode "\n:quit\n1".toList]
    decode? chunks.flatten = some "fun f = \x7b\n\x7d\n:quit\n1" ∧
      textOf Event.outputText (session ⟨false, false⟩ chunks) =
        ">>> ... function f() \x7b\n\x7d\n>>> " := by
  intro chunks
  have decodes : decode? chunks.flatten = some "fun f = \x7b\n\x7d\n:quit\n1" := by
    have joined : chunks.flatten = encode "fun f = \x7b\n\x7d\n:quit\n1".toList := by decide +kernel
    rw [joined, decode?_encode, String.ofList_toList]
  obtain ⟨rounds, isRounds, _, _, written, _⟩ := session_splits ⟨false, false⟩ decodes
  have incomplete : ¬Complete "fun f = \x7b\n" := by
    rw [← evaluate_finished_iff ⟨false, false⟩]
    decide +kernel
  have evaluated : evaluate ⟨false, false⟩ "fun f = \x7b\n\x7d\n" =
      ⟨true, "function f() \x7b\n\x7d\n", ""⟩ := by decide +kernel
  have complete : Complete "fun f = \x7b\n\x7d\n" := by
    rw [← evaluate_finished_iff ⟨false, false⟩, evaluated]
  have isGroup : IsGroup (["fun f = \x7b\n"] ++ "\x7d\n" :: [":quit\n", "1"]) (0 + 1 + 1) := by
    refine ⟨Nat.succ_pos _, by decide, complete, fun fewer isSome before => ?_⟩
    obtain rfl : fewer = 1 := by omega
    exact incomplete
  have starts : Starts (["fun f = \x7b\n"] ++ "\x7d\n" :: [":quit\n", "1"]) :=
    ⟨_, rfl, by decide, by decide⟩
  have lines : linesOf "fun f = \x7b\n\x7d\n:quit\n1" =
      ["fun f = \x7b\n"] ++ "\x7d\n" :: [":quit\n", "1"] := by decide +kernel
  rw [lines] at isRounds
  rw [← (isRounds _).mp (.group starts isGroup (.quit rfl))] at written
  refine ⟨decodes, written.trans ?_⟩
  have output : (evaluate ⟨false, false⟩ (String.join (["fun f = \x7b\n"] ++ ["\x7d\n"]))).output =
      "function f() \x7b\n\x7d\n" := congrArg Answer.output evaluated
  rw [List.map_append, List.map_cons, output]
  decide +kernel

end SprigCompiler.Shell
