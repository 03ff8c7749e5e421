import SprigCompiler.Token.Cursor

/-!
The cursor as two lists.

A zipper is what has been taken and what is ahead.  Whatever a cursor is asked, one thing after the
other, it answers as the zipper does: one token moves across the seam or nothing moves, a mark is
the pair of lists, and to go back to a mark is to have the pair again.
-/

namespace SprigCompiler

structure Zipper where
  taken : List Token
  ahead : List Token
  deriving DecidableEq, Repr

namespace Zipper

def ofList (tokens : List Token) : Zipper := ⟨[], tokens⟩

def whole (zipper : Zipper) : List Token := zipper.taken ++ zipper.ahead

def advance (zipper : Zipper) : Option Token × Zipper :=
  match zipper.ahead with
  | [] => (none, zipper)
  | token :: ahead => (some token, ⟨zipper.taken ++ [token], ahead⟩)

/-- The token taken last moves back, if there is one.  The answer is the one taken before it. -/
def retreat (zipper : Zipper) : Option Token × Zipper :=
  match zipper.taken.getLast? with
  | none => (none, zipper)
  | some token => (zipper.taken.dropLast.getLast?, ⟨zipper.taken.dropLast, token :: zipper.ahead⟩)

def currentIndex (zipper : Zipper) : Option Nat :=
  if zipper.taken = [] then none else some (zipper.taken.length - 1)

/-- The last of so many tokens from the first one on, or of all if there are fewer, that meets a
condition. -/
def lookBehind (zipper : Zipper) (index : Nat) (condition : Token → Bool) : Option Token :=
  ((zipper.whole.take (min index zipper.whole.length)).filter condition).getLast?

end Zipper

structure Access (Place Mark : Type) where
  advance : Place → Option Token × Place
  retreat : Place → Option Token × Place
  current : Place → Option Token
  peek : Place → Option Token
  currentIndex : Place → Option Nat
  get : Place → Nat → Option Token
  mark : Place → Mark
  reset : Place → Mark → Place
  lookBehind : Place → Nat → (Token → Bool) → Option Token

/-- Access through a cursor.  A retreat answers with the token that has then been taken last. -/
def Cursor.access : Access Cursor Cursor.Mark where
  advance := advance
  retreat cursor := (cursor.retreat.current, cursor.retreat)
  current := current
  peek := peek
  currentIndex := currentIndex
  get := get
  mark := mark
  reset := reset
  lookBehind := lookBehind

/-- Access through a zipper.  The tokens at the seam are the last and the first one, and a mark is
the zipper itself. -/
def Zipper.access : Access Zipper Zipper where
  advance := advance
  retreat := retreat
  current zipper := zipper.taken.getLast?
  peek zipper := zipper.ahead.head?
  currentIndex := currentIndex
  get zipper index := zipper.whole[index]?
  mark zipper := zipper
  reset _ mark := mark
  lookBehind := lookBehind

/-- What can be asked.  Marks are kept under names. -/
inductive Request where
  | advance
  | retreat
  | current
  | peek
  | currentIndex
  | get (index : Nat)
  | mark (name : String)
  | reset (name : String)
  | same (first second : String)
  | lookBehind (index : Nat) (condition : Token → Bool)

def Request.names : Request → List String
  | mark name | reset name => [name]
  | same first second => [first, second]
  | _ => []

inductive Answer where
  | token (found : Option Token)
  | index (found : Option Nat)
  | same (equal : Option Bool)
  | done

namespace Access

structure State (Place Mark : Type) where
  place : Place
  marks : String → Option Mark

def State.start {Place Mark : Type} (place : Place) : State Place Mark := ⟨place, fun _ => none⟩

variable {Place Mark : Type} [DecidableEq Mark] (access : Access Place Mark)

/-- Answers a request.  Without a mark under the name, there is nothing to go back to. -/
def answer (state : State Place Mark) : Request → Answer × State Place Mark
  | .advance =>
      let (found, place) := access.advance state.place
      (.token found, { state with place })
  | .retreat =>
      let (found, place) := access.retreat state.place
      (.token found, { state with place })
  | .current => (.token (access.current state.place), state)
  | .peek => (.token (access.peek state.place), state)
  | .currentIndex => (.index (access.currentIndex state.place), state)
  | .get index => (.token (access.get state.place index), state)
  | .mark name =>
      (.done, { state with
        marks := fun other =>
          if other = name then some (access.mark state.place) else state.marks other })
  | .reset name =>
      match state.marks name with
      | some mark => (.done, { state with place := access.reset state.place mark })
      | none => (.done, state)
  | .same first second =>
      (.same do return (← state.marks first) = (← state.marks second), state)
  | .lookBehind index condition =>
      (.token (access.lookBehind state.place index condition), state)

def after (state : State Place Mark) (requests : List Request) : State Place Mark :=
  requests.foldl (fun state request => (access.answer state request).2) state

def answers (state : State Place Mark) : List Request → List Answer
  | [] => []
  | request :: rest =>
      (access.answer state request).1 :: answers (access.answer state request).2 rest

section

variable {access}

theorem answer_reset {state : State Place Mark} {name : String} {mark : Mark}
    (isMark : state.marks name = some mark) :
    access.answer state (.reset name) =
      (.done, { state with place := access.reset state.place mark }) := by
  simp only [answer, isMark]

theorem answer_reset_none {state : State Place Mark} {name : String}
    (noMark : state.marks name = none) :
    access.answer state (.reset name) = (.done, state) := by
  simp only [answer, noMark]

end

theorem after_append (state : State Place Mark) (front behind : List Request) :
    access.after state (front ++ behind) = access.after (access.after state front) behind :=
  List.foldl_append

end Access

/-! ### A cursor for every zipper -/

theorem Cursor.lastBefore_eq (tokens : Array Token) (condition : Token → Bool) (index : Nat) :
    lastBefore tokens condition index = (tokens.toList.take index).reverse.find? condition := by
  induction index with
  | zero => rfl
  | succ index inductionHypothesis =>
      rw [lastBefore, List.take_add_one, List.reverse_append, List.find?_append,
        inductionHypothesis, Array.getElem?_toList]
      cases tokens[index]? with
      | none => rfl
      | some token =>
          by_cases holds : condition token = true
          · simp [holds]
          · simp [holds]

namespace Zipper

variable {zipper other : Zipper}

def cursor (zipper : Zipper) : Cursor := ⟨zipper.whole.toArray, zipper.taken.length⟩

private theorem whole_advance (zipper : Zipper) : zipper.advance.2.whole = zipper.whole := by
  obtain ⟨taken, ahead⟩ := zipper
  cases ahead with
  | nil => rfl
  | cons token ahead => exact List.append_assoc taken [token] ahead

private theorem whole_retreat (zipper : Zipper) : zipper.retreat.2.whole = zipper.whole := by
  obtain ⟨taken, ahead⟩ := zipper
  rcases taken.eq_nil_or_concat with rfl | ⟨taken, token, rfl⟩
  · rfl
  · simp [retreat, whole]

private theorem peek_cursor (zipper : Zipper) : zipper.cursor.peek = zipper.ahead.head? := by
  unfold Cursor.peek cursor whole
  rw [List.getElem?_toArray, List.getElem?_append_right (Nat.le_refl _), Nat.sub_self,
    List.head?_eq_getElem?]

private theorem advance_cursor (zipper : Zipper) :
    zipper.cursor.advance = (zipper.advance.1, zipper.advance.2.cursor) := by
  rw [Cursor.advance, peek_cursor]
  obtain ⟨taken, ahead⟩ := zipper
  cases ahead with
  | nil => rfl
  | cons token ahead => simp [advance, cursor, whole]

private theorem current_cursor (zipper : Zipper) :
    zipper.cursor.current = zipper.taken.getLast? := by
  obtain ⟨taken, ahead⟩ := zipper
  rcases taken.eq_nil_or_concat with rfl | ⟨taken, token, rfl⟩
  · rfl
  · simp [Cursor.current, Cursor.currentIndex, cursor, whole]

private theorem currentIndex_cursor (zipper : Zipper) :
    zipper.cursor.currentIndex = zipper.currentIndex := by
  obtain ⟨taken, ahead⟩ := zipper
  cases taken with
  | nil => rfl
  | cons token taken => rfl

private theorem retreat_cursor (zipper : Zipper) :
    zipper.cursor.retreat = zipper.retreat.2.cursor := by
  obtain ⟨taken, ahead⟩ := zipper
  rcases taken.eq_nil_or_concat with rfl | ⟨taken, token, rfl⟩
  · rfl
  · simp [Cursor.retreat, retreat, cursor, whole]

/-- A retreat answers with the token that it leaves behind it, also at the start. -/
theorem retreat_eq (zipper : Zipper) :
    zipper.retreat.1 = zipper.retreat.2.taken.getLast? := by
  obtain ⟨taken, ahead⟩ := zipper
  rcases taken.eq_nil_or_concat with rfl | ⟨taken, token, rfl⟩
  · rfl
  · simp [retreat]

private theorem get_cursor (zipper : Zipper) (index : Nat) :
    zipper.cursor.get index = zipper.whole[index]? :=
  List.getElem?_toArray

private theorem lookBehind_cursor (zipper : Zipper) (index : Nat) (condition : Token → Bool) :
    zipper.cursor.lookBehind index condition = zipper.lookBehind index condition := by
  unfold Cursor.lookBehind lookBehind
  rw [Cursor.lastBefore_eq, List.getLast?_filter]
  rfl

/-- Among the places in the same tokens, a mark determines the pair. -/
theorem mark_eq_iff (same : zipper.whole = other.whole) :
    zipper.cursor.mark = other.cursor.mark ↔ zipper = other := by
  constructor
  · intro marks
    obtain ⟨taken, ahead⟩ := zipper
    obtain ⟨otherTaken, otherAhead⟩ := other
    obtain ⟨rfl, rfl⟩ := List.append_inj same (Cursor.Mark.mk.inj marks)
    rfl
  · rintro rfl
    rfl

private theorem reset_cursor (same : zipper.whole = other.whole) :
    zipper.cursor.reset other.cursor.mark = other.cursor := by
  unfold Cursor.reset cursor
  rw [same]
  rfl

end Zipper

namespace Access

variable {tokens : List Token} {state : State Zipper Zipper}

def State.cursors (state : State Zipper Zipper) : State Cursor Cursor.Mark :=
  ⟨state.place.cursor, fun name => (state.marks name).map fun mark => mark.cursor.mark⟩

structure State.Splits (state : State Zipper Zipper) (tokens : List Token) : Prop where
  place : state.place.whole = tokens
  marks : ∀ name mark, state.marks name = some mark → mark.whole = tokens

private theorem splits_start (tokens : List Token) :
    (State.start (Zipper.ofList tokens)).Splits tokens :=
  ⟨rfl, nofun⟩

/-- No request changes the tokens. -/
theorem State.Splits.answer (splits : state.Splits tokens) (request : Request) :
    (Zipper.access.answer state request).2.Splits tokens := by
  cases request with
  | advance => exact ⟨state.place.whole_advance.trans splits.place, splits.marks⟩
  | retreat => exact ⟨state.place.whole_retreat.trans splits.place, splits.marks⟩
  | mark name =>
      refine ⟨splits.place, fun other mark isMark => ?_⟩
      dsimp only [Access.answer] at isMark
      split at isMark
      · cases isMark
        exact splits.place
      · exact splits.marks other mark isMark
  | reset name =>
      cases isMark : state.marks name with
      | none =>
          rw [answer_reset_none isMark]
          exact splits
      | some mark =>
          rw [answer_reset isMark]
          exact ⟨splits.marks name mark isMark, splits.marks⟩
  | _ => exact splits

/-- The cursors answer as their zippers do, and stay their cursors. -/
theorem State.Splits.answer_cursors (splits : state.Splits tokens) (request : Request) :
    Cursor.access.answer state.cursors request =
      ((Zipper.access.answer state request).1, (Zipper.access.answer state request).2.cursors) := by
  cases request with
  | mark name =>
      simp only [Access.answer, State.cursors, Cursor.access, Zipper.access, Prod.mk.injEq,
        Access.State.mk.injEq, true_and]
      funext other
      split <;> rfl
  | reset name =>
      cases isMark : state.marks name with
      | none =>
          have noMark : state.cursors.marks name = none := congrArg (Option.map _) isMark
          rw [answer_reset_none isMark, answer_reset_none noMark]
      | some mark =>
          have isCursorMark : state.cursors.marks name = some mark.cursor.mark :=
            congrArg (Option.map _) isMark
          have same : state.place.whole = mark.whole :=
            splits.place.trans (splits.marks name mark isMark).symm
          rw [answer_reset isMark, answer_reset isCursorMark]
          exact congrArg (fun place => (Answer.done, State.mk place state.cursors.marks))
            (Zipper.reset_cursor same)
  | same first second =>
      simp only [Access.answer, State.cursors]
      cases isFirst : state.marks first with
      | none => rfl
      | some mark =>
          cases isSecond : state.marks second with
          | none => rfl
          | some further =>
              have same : mark.whole = further.whole :=
                (splits.marks first mark isFirst).trans (splits.marks second further isSecond).symm
              simp [Zipper.mark_eq_iff same]
  | retreat =>
      simp only [Access.answer, Cursor.access, State.cursors, Zipper.retreat_cursor,
        Zipper.current_cursor, ← Zipper.retreat_eq]
      rfl
  | _ =>
      simp only [Access.answer, Cursor.access, State.cursors, Zipper.advance_cursor,
        Zipper.current_cursor, Zipper.peek_cursor, Zipper.currentIndex_cursor, Zipper.get_cursor,
        Zipper.lookBehind_cursor]
      rfl

private theorem State.Splits.after (splits : state.Splits tokens) (requests : List Request) :
    (Zipper.access.after state requests).Splits tokens := by
  induction requests generalizing state with
  | nil => exact splits
  | cons request rest inductionHypothesis => exact inductionHypothesis (splits.answer request)

private theorem State.Splits.after_cursors (splits : state.Splits tokens)
    (requests : List Request) :
    Cursor.access.after state.cursors requests = (Zipper.access.after state requests).cursors := by
  induction requests generalizing state with
  | nil => rfl
  | cons request rest inductionHypothesis =>
      change Cursor.access.after (Cursor.access.answer state.cursors request).2 rest = _
      rw [splits.answer_cursors request]
      exact inductionHypothesis (splits.answer request)

private theorem State.Splits.answers_cursors (splits : state.Splits tokens)
    (requests : List Request) :
    Cursor.access.answers state.cursors requests = Zipper.access.answers state requests := by
  induction requests generalizing state with
  | nil => rfl
  | cons request rest inductionHypothesis =>
      rw [answers, answers, splits.answer_cursors request,
        inductionHypothesis (splits.answer request)]

/-! ### Marks -/

section Marks

variable {Place Mark : Type} [DecidableEq Mark] {access : Access Place Mark}
  {first second : State Place Mark} {name : String}

private theorem marks_answer {request : Request} (other : request ≠ .mark name) :
    (access.answer first request).2.marks name = first.marks name := by
  cases request with
  | mark marked =>
      have different : name ≠ marked := by
        rintro rfl
        exact other rfl
      exact if_neg different
  | reset marked =>
      simp only [answer]
      split <;> rfl
  | _ => rfl

/-- A mark stays under its name until another one is taken under it. -/
theorem marks_after {requests : List Request} (kept : .mark name ∉ requests) :
    (access.after first requests).marks name = first.marks name := by
  induction requests generalizing first with
  | nil => rfl
  | cons request rest inductionHypothesis =>
      obtain ⟨other, kept⟩ := List.ne_and_not_mem_of_not_mem_cons kept
      exact (inductionHypothesis kept).trans (marks_answer other.symm)

/-- What is answered depends on the place and on the marks that are asked about. -/
theorem answer_congr {request : Request} (place : first.place = second.place)
    (marks : ∀ name ∈ request.names, first.marks name = second.marks name) :
    (access.answer first request).1 = (access.answer second request).1 ∧
      (access.answer first request).2.place = (access.answer second request).2.place ∧
      ∀ name, first.marks name = second.marks name →
        (access.answer first request).2.marks name =
          (access.answer second request).2.marks name := by
  obtain ⟨here, firstMarks⟩ := first
  obtain ⟨there, secondMarks⟩ := second
  obtain rfl : here = there := place
  cases request with
  | mark marked =>
      refine ⟨rfl, rfl, fun name same => ?_⟩
      exact congrArg (if name = marked then some (access.mark here) else ·) same
  | reset marked =>
      have isMarked : firstMarks marked = secondMarks marked :=
        marks marked (List.mem_singleton_self marked)
      cases found : secondMarks marked with
      | none =>
          rw [answer_reset_none (isMarked.trans found), answer_reset_none found]
          exact ⟨rfl, rfl, fun _ same => same⟩
      | some mark =>
          rw [answer_reset (isMarked.trans found), answer_reset found]
          exact ⟨rfl, rfl, fun _ same => same⟩
  | same left right =>
      have isLeft : firstMarks left = secondMarks left := marks left (by simp [Request.names])
      have isRight : firstMarks right = secondMarks right := marks right (by simp [Request.names])
      refine ⟨?_, rfl, fun _ same => same⟩
      simp only [answer, isLeft, isRight]
  | _ => exact ⟨rfl, rfl, fun _ same => same⟩

private theorem answers_congr {requests : List Request} (place : first.place = second.place)
    (marks : ∀ request ∈ requests, ∀ name ∈ request.names,
      first.marks name = second.marks name) :
    access.answers first requests = access.answers second requests := by
  induction requests generalizing first second with
  | nil => rfl
  | cons request rest inductionHypothesis =>
      obtain ⟨now, others⟩ := List.forall_mem_cons.mp marks
      obtain ⟨answer, place, kept⟩ := @answer_congr _ _ _ access _ _ _ place now
      rw [answers, answers, answer, inductionHypothesis place fun request isLater name isNamed =>
        kept name (others request isLater name isNamed)]

end Marks

/-- Whatever was asked since a mark, and whatever other marks were taken, behind a reset the place
is that of the mark, and what is asked then is answered as behind the mark. -/
theorem answers_reset (state : State Zipper Zipper) {between later : List Request} {name : String}
    (kept : .mark name ∉ between)
    (apart : ∀ other, .mark other ∈ between → ∀ request ∈ later, other ∉ request.names) :
    (Zipper.access.after state (.mark name :: between ++ [.reset name])).place = state.place ∧
      Zipper.access.answers (Zipper.access.after state (.mark name :: between ++ [.reset name]))
          later =
        Zipper.access.answers (Zipper.access.after state [.mark name]) later := by
  -- Nothing in between was kept under the name, so the mark is still there.
  have remembered : (Zipper.access.after (Zipper.access.after state [.mark name]) between).marks
      name = some state.place := (marks_after kept).trans (if_pos rfl)
  have reached : Zipper.access.after state (.mark name :: between ++ [.reset name]) =
      ⟨state.place,
        (Zipper.access.after (Zipper.access.after state [.mark name]) between).marks⟩ := by
    rw [List.cons_append, ← List.singleton_append, after_append, after_append]
    exact congrArg Prod.snd (answer_reset remembered)
  rw [reached]
  refine ⟨rfl, answers_congr rfl fun request isLater other isNamed => ?_⟩
  exact marks_after fun isMarked => apart other isMarked request isLater isNamed

end Access

/-- The cursor refines the zipper.  Whatever it is asked from the first token on, one thing after
the other, it answers as the zipper does that starts with no token taken.  Where that leads, the two
lists make up the tokens, and the cursor is the one at their seam, over the same tokens.  Marks
taken at two places are equal if and only if the pairs of lists are.  And behind a reset, the cursor
stands where it stood at the mark, and answers whatever is asked then as it would have done there,
as long as the marks that are asked about were not taken in between. -/
theorem Cursor.refines_zipper (tokens : List Token) (requests : List Request) :
    let cursors := fun requests => access.after (.start (ofList tokens)) requests
    let zippers := fun requests => Zipper.access.after (.start (.ofList tokens)) requests
    access.answers (.start (ofList tokens)) requests =
        Zipper.access.answers (.start (.ofList tokens)) requests ∧
      (zippers requests).place.taken ++ (zippers requests).place.ahead = tokens ∧
      (cursors requests).place = ⟨tokens.toArray, (zippers requests).place.taken.length⟩ ∧
      (∀ others, (cursors requests).place.mark = (cursors others).place.mark ↔
        (zippers requests).place = (zippers others).place) ∧
      ∀ name between later, .mark name ∉ between →
        (∀ other, .mark other ∈ between → ∀ request ∈ later, other ∉ request.names) →
        (cursors (requests ++ .mark name :: between ++ [.reset name])).place =
            (cursors requests).place ∧
          access.answers (cursors (requests ++ .mark name :: between ++ [.reset name])) later =
            access.answers (cursors (requests ++ [.mark name])) later := by
  intro cursors zippers
  have start : (Access.State.start (Zipper.ofList tokens)).Splits tokens :=
    Access.splits_start tokens
  have splits (requests : List Request) : (zippers requests).Splits tokens := start.after requests
  have alike (requests : List Request) : cursors requests = (zippers requests).cursors :=
    start.after_cursors requests
  refine ⟨start.answers_cursors requests, (splits requests).place, ?_, fun others => ?_, ?_⟩
  · rw [alike]
    exact congrArg (fun whole => Cursor.mk (List.toArray whole) _) (splits requests).place
  · rw [alike, alike]
    exact Zipper.mark_eq_iff ((splits requests).place.trans (splits others).place.symm)
  · intro name between later kept apart
    obtain ⟨place, answers⟩ := Access.answers_reset (zippers requests) kept apart
    have behind (more : List Request) :
        zippers (requests ++ more) = Zipper.access.after (zippers requests) more :=
      Zipper.access.after_append _ requests more
    rw [alike, alike, alike, (splits _).answers_cursors, (splits _).answers_cursors,
      List.append_assoc, behind, behind, ← answers]
    exact ⟨congrArg Zipper.cursor place, rfl⟩

/-- Back from the end of two tokens, where another mark was taken, to the place between them. -/
theorem Cursor.refines_zipper_between :
    let place : Location := ⟨1, 0, 0, 1⟩
    let name : Token := ⟨.identifier, "A", place⟩
    let bar : Token := ⟨.operator .union, "|", place⟩
    let between : List Request := [.advance, .advance, .mark "end", .retreat, .retreat]
    let later : List Request :=
      [.peek, .same "seam" "seam", .current, .lookBehind 9 (·.kind.isAtom)]
    .mark "seam" ∉ between ∧
      (∀ other, .mark other ∈ between → ∀ request ∈ later, other ∉ request.names) ∧
      access.answers (access.after (.start (ofList [name, bar]))
          ([.advance] ++ .mark "seam" :: between ++ [.reset "seam"])) later =
        [.token (some bar), .same (some true), .token (some name), .token (some name)] := by
  intro place name bar between later
  have kept : .mark "seam" ∉ between := by simp [between]
  have apart : ∀ other, .mark other ∈ between → ∀ request ∈ later, other ∉ request.names := by
    simp [between, later, Request.names]
  obtain ⟨_, _, _, _, reset⟩ := refines_zipper [name, bar] [.advance]
  exact ⟨kept, apart, (reset "seam" between later kept apart).2.trans rfl⟩

/-- An advance that failed is not what a retreat puts back. -/
example :
    let name : Token := ⟨.identifier, "A", ⟨1, 0, 0, 1⟩⟩
    Cursor.access.answers (.start (.ofList [name])) [.advance, .advance, .retreat, .advance] =
      [.token (some name), .token none, .token none, .token (some name)] := rfl

end SprigCompiler
