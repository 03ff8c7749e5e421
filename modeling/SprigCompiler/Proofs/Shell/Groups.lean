import Mathlib.Data.List.TakeWhile
import Mathlib.Data.Nat.Find
import SprigCompiler.Proofs.Shell.Lines

/-!
Groups of lines.

The shell cuts its input into groups.  A group is the shortest run of lines whose text is complete:
it compiles, or it fails for another reason than an open block.  Blank lines between groups are
dropped, and the line `:quit` between groups ends the session.  Each group is evaluated once, as if
it were all there is.
-/

namespace SprigCompiler.Shell

/-- Whether a text needs no more lines: it compiles, or it fails otherwise than with an open
block. -/
def Complete (text : String) : Prop :=
  ∀ position, compile text ≠ .error (.parse (.incomplete position))

/-- One round of a session: the pending text, the prompt, the line that was read, if there was one
left, and what was written then. -/
structure Round where
  pending : String
  prompt : String
  line? : Option String
  output : String
  errors : String

def promptAt : Nat → String
  | 0 => ">>> "
  | _ + 1 => "... "

def waiting (pending : List String) : List String → List Round
  | [] => []
  | line :: rest =>
      ⟨String.join pending, promptAt pending.length, some line, "", ""⟩ ::
        waiting (pending ++ [line]) rest

/-- Whether a group starts with the first of some lines: it is neither blank nor `:quit`. -/
def Starts (lines : List String) : Prop :=
  ∃ first ∈ lines.head?, trim first.toList ≠ ":quit".toList ∧ trim first.toList ≠ []

/-- Whether a number of lines is the least one, apart from zero, with a complete text. -/
structure IsGroup (lines : List String) (count : Nat) : Prop where
  isSome : 0 < count
  within : count ≤ lines.length
  complete : Complete (String.join (lines.take count))
  least : ∀ fewer, 0 < fewer → fewer < count → ¬Complete (String.join (lines.take fewer))

inductive Session (options : Options) : List String → List Round → Prop where
  | ended : Session options [] [⟨"", ">>> ", none, "\n", ""⟩]
  | quit {line : String} {rest : List String} (isQuit : trim line.toList = ":quit".toList) :
      Session options (line :: rest) [⟨"", ">>> ", some line, "", ""⟩]
  | blank {line : String} {rest : List String} {rounds : List Round}
      (isBlank : trim line.toList = []) (others : Session options rest rounds) :
      Session options (line :: rest) (⟨"", ">>> ", some line, "", ""⟩ :: rounds)
  | group {front rest : List String} {last : String} {rounds : List Round}
      (starts : Starts (front ++ last :: rest))
      (isGroup : IsGroup (front ++ last :: rest) (front.length + 1))
      (others : Session options rest rounds) :
      Session options (front ++ last :: rest)
        (waiting [] front ++
          ⟨String.join front, promptAt front.length, some last,
            (evaluate options (String.join (front ++ [last]))).output,
            (evaluate options (String.join (front ++ [last]))).errors⟩ :: rounds)
  | unfinished {lines : List String} (starts : Starts lines)
      (never : ∀ count, 0 < count → count ≤ lines.length →
        ¬Complete (String.join (lines.take count))) :
      Session options lines (waiting [] lines ++ [⟨String.join lines, "... ", none, "\n", ""⟩])

variable {options : Options} {lines front rest done : List String} {line : String}
  {rounds : List Round}

private theorem trim_eq_nil_iff (characters : List Char) :
    trim characters = [] ↔ ∀ character ∈ characters, isBlank character = true := by
  unfold trim trimEnd trimStart
  rw [List.reverse_eq_nil_iff, List.dropWhile_eq_nil_iff]
  constructor
  · intro restBlank
    rw [← List.dropWhile_eq_nil_iff]
    cases isRest : characters.dropWhile isBlank with
    | nil => rfl
    | cons first rest =>
        have stops := List.head?_dropWhile_not isBlank characters
        rw [isRest] at restBlank stops
        have noBlank : isBlank first = false := stops
        rw [restBlank first (List.mem_reverse.mpr List.mem_cons_self)] at noBlank
        cases noBlank
  · intro allBlank character isPart
    have isRest := List.mem_reverse.mp isPart
    exact allBlank character ((List.dropWhile_suffix isBlank).mem isRest)

/-- A text is not blank if its first line is not. -/
theorem trim_join_ne_nil (starts : Starts lines) : trim (String.join lines).toList ≠ [] := by
  obtain ⟨first, isFirst, _, noBlank⟩ := starts
  obtain ⟨others, rfl⟩ : ∃ others, lines = first :: others := by
    cases lines with
    | nil => cases isFirst
    | cons head others =>
        cases isFirst
        exact ⟨others, rfl⟩
  intro isBlank
  refine noBlank ((trim_eq_nil_iff _).mpr fun character isPart => ?_)
  rw [String.join_cons, String.toList_append] at isBlank
  exact (trim_eq_nil_iff _).mp isBlank character (List.mem_append_left _ isPart)

private theorem join_ne_empty (starts : Starts lines) : String.join lines ≠ "" := by
  intro isEmpty
  have noBlank := trim_join_ne_nil starts
  rw [isEmpty] at noBlank
  exact noBlank rfl

/-- Nothing is said to a text with an open block, and any other is finished. -/
theorem evaluate_cases (options : Options) (text : String) :
    (evaluate options text).finished = true ∧ Complete text ∨
      evaluate options text = ⟨false, "", ""⟩ ∧ ¬Complete text := by
  unfold evaluate Complete
  cases compile text with
  | ok compiled => exact .inl ⟨rfl, nofun⟩
  | error error =>
      cases error with
      | parse error =>
          cases error with
          | incomplete position => exact .inr ⟨rfl, fun complete => complete position rfl⟩
          | _ => exact .inl ⟨rfl, nofun⟩
      | _ => exact .inl ⟨rfl, nofun⟩

/-- An input is finished if and only if it is complete. -/
theorem evaluate_finished_iff (options : Options) (text : String) :
    (evaluate options text).finished = true ↔ Complete text := by
  rcases evaluate_cases options text with ⟨finished, complete⟩ | ⟨unfinished, incomplete⟩
  · exact iff_of_true finished complete
  · exact iff_of_false (by rw [unfinished]; exact Bool.false_ne_true) incomplete

private theorem evaluate_of_complete (options : Options) {text : String}
    (complete : Complete text) :
    (evaluate options text).finished = true :=
  (evaluate_finished_iff options text).mpr complete

private theorem evaluate_of_incomplete (options : Options) {text : String}
    (incomplete : ¬Complete text) : evaluate options text = ⟨false, "", ""⟩ := by
  rcases evaluate_cases options text with ⟨_, complete⟩ | ⟨unfinished, _⟩
  · exact absurd complete incomplete
  · exact unfinished

theorem Starts.of_append (starts : Starts (done ++ rest)) (isSome : done ≠ []) : Starts done := by
  cases done with
  | nil => exact absurd rfl isSome
  | cons first done => exact starts

private theorem prompt_join (starts : done ≠ [] → Starts done) :
    prompt (String.join done) = promptAt done.length := by
  unfold prompt
  cases done with
  | nil => rfl
  | cons first done =>
      have isSome := join_ne_empty (starts (List.cons_ne_nil first done))
      rw [if_neg (by rw [String.isEmpty_iff]; exact isSome)]
      rfl

/-- Within a group every line is evaluated together with the pending ones. -/
theorem takeLine_join (options : Options) (starts : Starts (done ++ [line])) :
    takeLine options (String.join done) line =
      .next
        (if (evaluate options (String.join (done ++ [line]))).finished then ""
          else String.join (done ++ [line]))
        (evaluate options (String.join (done ++ [line]))).output
        (evaluate options (String.join (done ++ [line]))).errors := by
  have noQuit : ¬((String.join done).isEmpty = true ∧ trim line.toList = ":quit".toList) := by
    rintro ⟨isEmpty, isQuit⟩
    cases done with
    | nil =>
        obtain ⟨first, isFirst, differs, _⟩ := starts
        cases isFirst
        exact differs isQuit
    | cons first done =>
        exact join_ne_empty (starts.of_append (List.cons_ne_nil first done))
          (String.isEmpty_iff.mp isEmpty)
  have whole : String.join done ++ line = String.join (done ++ [line]) := by
    rw [String.join_append, String.join_cons, String.join_nil, String.append_empty]
  have noBlank : ¬(trim (String.join (done ++ [line])).toList).isEmpty = true := by
    rw [List.isEmpty_iff]
    exact trim_join_ne_nil starts
  unfold takeLine
  rw [if_neg noQuit]
  simp only [whole]
  rw [if_neg noBlank]

/-! ### Rounds of a session -/

def roundsOf (options : Options) (pending : String) : List String → List Round
  | [] => [⟨pending, prompt pending, none, "\n", ""⟩]
  | line :: rest =>
      match takeLine options pending line with
      | .quit => [⟨pending, prompt pending, some line, "", ""⟩]
      | .next next output errors =>
          ⟨pending, prompt pending, some line, output, errors⟩ :: roundsOf options next rest

private theorem Starts.of_cons (starts : Starts (done ++ line :: rest)) :
    Starts (done ++ [line]) := by
  rw [List.append_cons] at starts
  exact starts.of_append (List.append_ne_nil_of_right_ne_nil _ (List.cons_ne_nil line []))

theorem roundsOf_cons (options : Options) (starts : Starts (done ++ line :: rest)) :
    roundsOf options (String.join done) (line :: rest) =
      ⟨String.join done, promptAt done.length, some line,
        (evaluate options (String.join (done ++ [line]))).output,
        (evaluate options (String.join (done ++ [line]))).errors⟩ ::
      roundsOf options
        (if (evaluate options (String.join (done ++ [line]))).finished then ""
          else String.join (done ++ [line])) rest := by
  rw [roundsOf, takeLine_join options starts.of_cons, prompt_join starts.of_append]

/-- Lines whose text is not complete stay pending. -/
theorem roundsOf_waiting (front : List String) (starts : Starts (done ++ front ++ rest))
    (never : ∀ count, 0 < count → count ≤ front.length →
      ¬Complete (String.join (done ++ front.take count))) :
    roundsOf options (String.join done) (front ++ rest) =
      waiting done front ++ roundsOf options (String.join (done ++ front)) rest := by
  induction front generalizing done with
  | nil =>
      rw [List.append_nil]
      rfl
  | cons line front inductionHypothesis =>
      have first := never 1 Nat.one_pos (Nat.le_add_left 1 _)
      rw [List.append_assoc, List.cons_append] at starts
      rw [List.take_succ_cons, List.take_zero] at first
      rw [List.cons_append, roundsOf_cons options starts, evaluate_of_incomplete options first,
        waiting, List.cons_append]
      rw [List.append_cons done line front]
      refine congrArg _ (inductionHypothesis ?_ fun count isSome within => ?_)
      · rw [List.append_assoc, List.append_assoc]
        exact starts
      · have later := never (count + 1) (Nat.succ_pos count) (Nat.succ_le_succ within)
        rw [List.take_succ_cons, List.append_cons] at later
        exact later

/-- A group is evaluated with its last line, and nothing is pending behind it. -/
theorem roundsOf_group (starts : Starts (front ++ line :: rest))
    (isGroup : IsGroup (front ++ line :: rest) (front.length + 1)) :
    roundsOf options "" (front ++ line :: rest) =
      waiting [] front ++
        ⟨String.join front, promptAt front.length, some line,
          (evaluate options (String.join (front ++ [line]))).output,
          (evaluate options (String.join (front ++ [line]))).errors⟩ ::
        roundsOf options "" rest := by
  have complete := isGroup.complete
  rw [List.append_cons, List.take_append_of_le_length (by simp), List.take_of_length_le (by simp)]
    at complete
  have never : ∀ count, 0 < count → count ≤ front.length →
      ¬Complete (String.join (front.take count)) := by
    intro count isSome within
    have incomplete := isGroup.least count isSome (Nat.lt_succ_of_le within)
    rwa [List.take_append_of_le_length within] at incomplete
  have waits := @roundsOf_waiting options (line :: rest) [] front starts never
  rw [String.join_nil, List.nil_append] at waits
  rw [waits, roundsOf_cons options starts, if_pos (evaluate_of_complete options complete)]

theorem Session.eq_roundsOf (session : Session options lines rounds) :
    rounds = roundsOf options "" lines := by
  induction session with
  | ended => rfl
  | quit isQuit =>
      have leaves : ("" : String).isEmpty = true ∧ _ := ⟨rfl, isQuit⟩
      rw [roundsOf, takeLine, if_pos leaves]
      rfl
  | @blank line rest rounds isBlank _ inductionHypothesis =>
      have stays : ¬(("" : String).isEmpty = true ∧ trim line.toList = ":quit".toList) := by
        rintro ⟨_, isQuit⟩
        rw [isBlank] at isQuit
        cases isQuit
      rw [roundsOf, takeLine, if_neg stays]
      simp only [String.empty_append, isBlank, List.isEmpty_nil, if_true]
      rw [inductionHypothesis]
      rfl
  | group starts isGroup _ inductionHypothesis =>
      rw [roundsOf_group starts isGroup, inductionHypothesis]
  | @unfinished lines starts never =>
      have waits := @roundsOf_waiting options [] [] lines (by simpa using starts) never
      rw [String.join_nil, List.nil_append, List.append_nil] at waits
      rw [waits, roundsOf, prompt_join fun _ => starts]
      cases lines with
      | nil =>
          obtain ⟨_, isFirst, _⟩ := starts
          cases isFirst
      | cons first rest => rfl

/-- Some first lines are a group, or no number of them is. -/
theorem exists_group (lines : List String) :
    (∃ count, IsGroup lines count) ∨ ∀ count, 0 < count → count ≤ lines.length →
      ¬Complete (String.join (lines.take count)) := by
  classical
  by_cases some : ∃ count, 0 < count ∧ count ≤ lines.length ∧
      Complete (String.join (lines.take count))
  · obtain ⟨isSome, within, complete⟩ := Nat.find_spec some
    refine .inl ⟨Nat.find some, isSome, within, complete, fun fewer isFewer before isComplete => ?_⟩
    exact Nat.find_min some before ⟨isFewer, by omega, isComplete⟩
  · exact .inr fun count isSome within complete => some ⟨count, isSome, within, complete⟩

private theorem IsGroup.exists_last {count : Nat} (isGroup : IsGroup lines count) :
    ∃ front last rest, lines = front ++ last :: rest ∧ count = front.length + 1 := by
  have isSome := isGroup.isSome
  have within := isGroup.within
  have inside : count - 1 < lines.length := by omega
  refine ⟨lines.take (count - 1), lines[count - 1], lines.drop (count - 1 + 1), ?_, ?_⟩
  · rw [← List.drop_eq_getElem_cons inside, List.take_append_drop]
  · rw [List.length_take]
    omega

theorem exists_session (options : Options) (lines : List String) :
    ∃ rounds, Session options lines rounds := by
  induction length : lines.length using Nat.strong_induction_on generalizing lines with
  | _ bound inductionHypothesis =>
      cases lines with
      | nil => exact ⟨_, .ended⟩
      | cons line rest =>
          by_cases isQuit : trim line.toList = ":quit".toList
          · exact ⟨_, .quit isQuit⟩
          · by_cases isBlank : trim line.toList = []
            · obtain ⟨rounds, others⟩ :=
                inductionHypothesis rest.length (length ▸ Nat.lt_succ_self _) rest rfl
              exact ⟨_, .blank isBlank others⟩
            · have starts : Starts (line :: rest) := ⟨line, rfl, isQuit, isBlank⟩
              rcases exists_group (line :: rest) with ⟨count, isGroup⟩ | never
              · obtain ⟨front, last, behind, split, rfl⟩ := isGroup.exists_last
                rw [split] at starts isGroup length ⊢
                rw [List.length_append, List.length_cons] at length
                obtain ⟨rounds, others⟩ := inductionHypothesis behind.length (by omega) behind rfl
                exact ⟨_, .group starts isGroup others⟩
              · exact ⟨_, .unfinished starts never⟩

end SprigCompiler.Shell
