import Mathlib.Data.List.Induction
import SprigCompiler.Proofs.Text.Positions

/-!
Guarded operations on texts.

A guarded operation gives nothing outside of its domain: a difference of numbers where it would be
negative, an entry of a list behind its end, a part of a text where one of its ends lies inside a
character or behind the text.  An index of lines that is searched with such operations finds the
position of every offset at which a character starts, and the characters of every line.
-/

namespace SprigCompiler.Guarded

/-- The first number without the second, which must not be greater. -/
def sub? (first second : Nat) : Option Nat :=
  if second ≤ first then some (first - second) else none

/-- What stands behind the first `bytes` bytes.  No character may lie across that place. -/
def drop? (bytes : Nat) : List Char → Option (List Char)
  | [] => if bytes = 0 then some [] else none
  | first :: rest =>
      if bytes = 0 then some (first :: rest)
      else do drop? (← sub? bytes first.utf8Size) rest

/-- The first `bytes` bytes.  No character may lie across their end. -/
def take? (bytes : Nat) : List Char → Option (List Char)
  | [] => if bytes = 0 then some [] else none
  | first :: rest =>
      if bytes = 0 then some []
      else do return first :: (← take? (← sub? bytes first.utf8Size) rest)

def slice? (text : List Char) (start stop : Nat) : Option (List Char) := do
  take? (← sub? stop start) (← drop? start text)

def startsBehind (offset : Nat) : List Char → List Nat
  | [] => []
  | first :: rest =>
      if first = '\n' then (offset + 1) :: startsBehind (offset + 1) rest
      else startsBehind (offset + first.utf8Size) rest

def lineStarts (text : List Char) : Array Nat := (0 :: startsBehind 0 text).toArray

/-- Looks an offset up among the starts from `low` up to but not including `high`: where it is, or
else where it would have to be put. -/
def search? (starts : Array Nat) (offset low high : Nat) : Option (Except Nat Nat) :=
  if low < high then
    match starts[(low + high) / 2]? with
    | none => none
    | some start =>
        if start = offset then some (.ok ((low + high) / 2))
        else if start < offset then search? starts offset ((low + high) / 2 + 1) high
        else search? starts offset low ((low + high) / 2)
  else some (.error low)
termination_by high - low

def lineIndex? (starts : Array Nat) (offset : Nat) : Option Nat := do
  match ← search? starts offset 0 starts.size with
  | .ok index => some index
  | .error next => sub? next 1

def position? (text : List Char) (offset : Nat) : Option Position := do
  let starts := lineStarts text
  let offset := min offset (byteCount text)
  let index ← lineIndex? starts offset
  let inside ← slice? text (← starts[index]?) offset
  return ⟨index + 1, inside.length⟩

def location? (text : List Char) (start stop : Nat) : Option Location := do
  let position ← position? text start
  return ⟨position.line, position.column, start, stop⟩

/-- Where the characters of the line at an index end: in front of the newline before the next line,
or at the end of the text. -/
def lineStop? (text : List Char) (index : Nat) : Option Nat :=
  match (lineStarts text)[index + 1]? with
  | some next => sub? next 1
  | none => some (byteCount text)

def lineAt? (text : List Char) (index : Nat) : Option (Option Line) :=
  match (lineStarts text)[index]? with
  | none => some none
  | some start => do return some ⟨start, ← slice? text start (← lineStop? text index)⟩

def line? (text : List Char) : Nat → Option (Option String)
  | 0 => some none
  | index + 1 => (lineAt? text index).map (Option.map Line.text)

variable {text front inside behind before : List Char} {offset start index : Nat}

theorem sub?_of_le {first second : Nat} (within : second ≤ first) :
    sub? first second = some (first - second) := if_pos within

theorem sub?_add_left (first second : Nat) : sub? (first + second) first = some second := by
  rw [sub?_of_le (Nat.le_add_right _ _), Nat.add_sub_cancel_left]

private theorem drop?_zero (text : List Char) : drop? 0 text = some text := by
  cases text <;> rfl

private theorem take?_zero (text : List Char) : take? 0 text = some [] := by
  cases text <;> rfl

theorem drop?_append (front behind : List Char) :
    drop? (byteCount front) (front ++ behind) = some behind := by
  induction front with
  | nil => exact drop?_zero behind
  | cons first rest inductionHypothesis =>
      have notHere : byteCount (first :: rest) ≠ 0 :=
        (byteCount_pos (List.cons_ne_nil first rest)).ne'
      rw [List.cons_append, drop?, if_neg notHere, byteCount_cons, sub?_add_left]
      exact inductionHypothesis

private theorem take?_append (front behind : List Char) :
    take? (byteCount front) (front ++ behind) = some front := by
  induction front with
  | nil => exact take?_zero behind
  | cons first rest inductionHypothesis =>
      have notHere : byteCount (first :: rest) ≠ 0 :=
        (byteCount_pos (List.cons_ne_nil first rest)).ne'
      rw [List.cons_append, take?, if_neg notHere, byteCount_cons, sub?_add_left]
      change (take? (byteCount rest) (rest ++ behind)).bind _ = _
      rw [inductionHypothesis]
      rfl

/-- A part of a text that starts and ends where characters do. -/
theorem slice?_append (front inside behind : List Char) :
    slice? (front ++ (inside ++ behind)) (byteCount front) (byteCount front + byteCount inside) =
      some inside := by
  unfold slice?
  rw [sub?_add_left, drop?_append]
  exact take?_append inside behind

private theorem startsBehind_append (offset : Nat) (front behind : List Char) :
    startsBehind offset (front ++ behind) =
      startsBehind offset front ++ startsBehind (offset + byteCount front) behind := by
  induction front generalizing offset with
  | nil => rfl
  | cons first rest inductionHypothesis =>
      rw [List.cons_append, startsBehind, startsBehind, byteCount_cons, ← Nat.add_assoc]
      split
      · rename_i isNewline
        have oneByte : first.utf8Size = 1 := by rw [isNewline]; rfl
        rw [inductionHypothesis, oneByte, List.cons_append]
      · exact inductionHypothesis _

private theorem startsBehind_of_not_mem (single : '\n' ∉ inside) :
    startsBehind offset inside = [] := by
  induction inside generalizing offset with
  | nil => rfl
  | cons first rest inductionHypothesis =>
      rw [List.mem_cons, not_or] at single
      obtain ⟨noNewline, others⟩ := single
      rw [startsBehind, if_neg (Ne.symm noNewline), inductionHypothesis others]

private theorem lt_of_mem_startsBehind (isStart : start ∈ startsBehind offset text) :
    offset < start := by
  induction text generalizing offset with
  | nil => cases isStart
  | cons first rest inductionHypothesis =>
      rw [startsBehind] at isStart
      split at isStart
      · rcases List.mem_cons.mp isStart with rfl | isLater
        · exact Nat.lt_succ_self offset
        · exact Nat.lt_of_succ_lt (inductionHypothesis isLater)
      · exact Nat.lt_of_le_of_lt (Nat.le_add_right _ _) (inductionHypothesis isStart)

private theorem pairwise_startsBehind (offset : Nat) (text : List Char) :
    (offset :: startsBehind offset text).Pairwise (· < ·) := by
  have increases : (startsBehind offset text).Pairwise (· < ·) := by
    induction text generalizing offset with
    | nil => exact .nil
    | cons first rest inductionHypothesis =>
        rw [startsBehind]
        split
        · exact .cons (fun _ => lt_of_mem_startsBehind) (inductionHypothesis _)
        · exact inductionHypothesis _
  exact .cons (fun _ => lt_of_mem_startsBehind) increases

/-- Where the walk over some characters arrives: `before` are the finished lines, and `inside` is
what was read of the current one. -/
structure Reached (front before inside : List Char) : Prop where
  split : front = before ++ inside
  single : '\n' ∉ inside
  start : (0 :: startsBehind 0 before)[(startsBehind 0 before).length]? = some (byteCount before)
  arrives : Position.origin.afterAll front = ⟨(startsBehind 0 before).length + 1, inside.length⟩

private theorem exists_reached (front : List Char) :
    ∃ before inside, Reached front before inside := by
  induction front using List.reverseRecOn with
  | nil => exact ⟨[], [], rfl, List.not_mem_nil, rfl, rfl⟩
  | append_singleton front last inductionHypothesis =>
      obtain ⟨before, inside, reached⟩ := inductionHypothesis
      have walked : Position.origin.afterAll (front ++ [last]) =
          (Position.origin.afterAll front).after last := List.foldl_append
      rw [reached.arrives, Position.after] at walked
      by_cases isNewline : last = '\n'
      · subst isNewline
        have starts : startsBehind 0 (before ++ inside ++ ['\n']) =
            startsBehind 0 before ++ [byteCount (before ++ inside) + 1] := by
          rw [startsBehind_append, startsBehind_append, startsBehind_of_not_mem reached.single,
            List.append_nil, Nat.zero_add]
          rfl
        refine ⟨before ++ inside ++ ['\n'], [], ?_, List.not_mem_nil, ?_, ?_⟩
        · rw [reached.split, List.append_nil]
        · rw [starts, List.length_append, List.length_singleton, List.getElem?_cons_succ,
            List.getElem?_concat_length, byteCount_append _ ['\n']]
          rfl
        · rw [walked, starts, List.length_append]
          rfl
      · refine ⟨before, inside ++ [last], ?_, ?_, reached.start, ?_⟩
        · rw [reached.split, List.append_assoc]
        · rw [List.mem_append, List.mem_singleton, not_or]
          exact ⟨reached.single, Ne.symm isNewline⟩
        · rw [walked, if_neg isNewline, List.length_append]
          rfl

/-! ### Looking an offset up -/

/-- An offset is found at the only line that can hold it: `index` is the last line that starts at or
before it. -/
theorem search?_eq {starts : Array Nat} {offset index low high : Nat}
    (upTo : ∀ other start, starts[other]? = some start → (start ≤ offset ↔ other ≤ index))
    (single : ∀ other, starts[other]? = some offset → other = index)
    (atLeast : low ≤ index + 1) (atMost : index + 1 ≤ high) (within : high ≤ starts.size) :
    search? starts offset low high = some (.ok index) ∨
      search? starts offset low high = some (.error (index + 1)) := by
  induction length : high - low using Nat.strong_induction_on generalizing low high with
  | _ bound inductionHypothesis =>
      rw [search?]
      by_cases several : low < high
      · have inRange : (low + high) / 2 < starts.size := by omega
        have isStart := Array.getElem?_eq_getElem inRange
        generalize starts[(low + high) / 2] = start at isStart
        have reached := upTo _ start isStart
        rw [if_pos several]
        simp only [isStart]
        split
        · rename_i isOffset
          rw [isOffset] at isStart
          rw [single _ isStart]
          exact .inl rfl
        · split
          · exact inductionHypothesis _ (by omega) (by omega) atMost within rfl
          · exact inductionHypothesis _ (by omega) atLeast (by omega) (by omega) rfl
      · obtain rfl : low = index + 1 := by omega
        rw [if_neg several]
        exact .inr rfl

private theorem lineIndex?_eq {starts : Array Nat}
    (upTo : ∀ other start, starts[other]? = some start → (start ≤ offset ↔ other ≤ index))
    (single : ∀ other, starts[other]? = some offset → other = index)
    (within : index < starts.size) : lineIndex? starts offset = some index := by
  unfold lineIndex?
  rcases search?_eq upTo single (Nat.zero_le _) within (Nat.le_refl _) with found | isNext
  · rw [found]
    rfl
  · rw [isNext]
    exact sub?_of_le (Nat.le_add_left 1 index)

theorem lineStarts_lt {other first second : Nat} (isFirst : (lineStarts text)[index]? = some first)
    (isSecond : (lineStarts text)[other]? = some second) (before : index < other) :
    first < second := by
  obtain ⟨inside, rfl⟩ := Array.getElem?_eq_some_iff.mp isFirst
  obtain ⟨otherInside, rfl⟩ := Array.getElem?_eq_some_iff.mp isSecond
  exact List.pairwise_iff_getElem.mp (pairwise_startsBehind 0 text) index other inside otherInside
    before

theorem Reached.lineStarts_eq (reached : Reached front before inside) (behind : List Char) :
    lineStarts (front ++ behind) =
      ((0 :: startsBehind 0 before) ++ startsBehind (byteCount front) behind).toArray := by
  unfold lineStarts
  rw [startsBehind_append, reached.split, startsBehind_append,
    startsBehind_of_not_mem reached.single, List.append_nil, Nat.zero_add]
  rfl

theorem Reached.isStart (reached : Reached front before inside) (behind : List Char) :
    (lineStarts (front ++ behind))[(startsBehind 0 before).length]? = some (byteCount before) := by
  rw [reached.lineStarts_eq, List.getElem?_toArray, List.getElem?_append_left (Nat.lt_succ_self _)]
  exact reached.start

/-- The starts up to the current line lie at or before an offset in it, and the others behind. -/
theorem Reached.le_iff (reached : Reached front before inside) {other : Nat}
    (isOther : (lineStarts (front ++ behind))[other]? = some start) :
    start ≤ byteCount front ↔ other ≤ (startsBehind 0 before).length := by
  have isCurrent := reached.isStart behind
  have here : byteCount before ≤ byteCount front := by
    rw [reached.split, byteCount_append]
    exact Nat.le_add_right _ _
  constructor
  · intro reaches
    by_contra isLater
    rw [reached.lineStarts_eq, List.getElem?_toArray,
      List.getElem?_append_right (Nat.lt_of_not_le isLater)] at isOther
    have beyond := lt_of_mem_startsBehind (List.mem_of_getElem? isOther)
    omega
  · intro isEarlier
    rcases Nat.lt_or_eq_of_le isEarlier with isBefore | rfl
    · have earlier := lineStarts_lt isOther isCurrent isBefore
      omega
    · rw [isCurrent] at isOther
      cases isOther
      exact here

private theorem Reached.eq_of_start (reached : Reached front before inside) {other : Nat}
    (isOther : (lineStarts (front ++ behind))[other]? = some (byteCount front)) :
    other = (startsBehind 0 before).length := by
  rcases Nat.lt_or_eq_of_le ((reached.le_iff isOther).mp (Nat.le_refl _)) with isBefore | isSame
  · have earlier := lineStarts_lt isOther (reached.isStart behind) isBefore
    rw [reached.split, byteCount_append] at earlier
    omega
  · exact isSame

/-- The guarded operations find every offset at which a character starts or the text ends. -/
theorem position?_byteCount (front behind : List Char) :
    position? (front ++ behind) (byteCount front) = some (Position.origin.afterAll front) := by
  obtain ⟨before, inside, reached⟩ := exists_reached front
  have within : min (byteCount front) (byteCount (front ++ behind)) = byteCount front := by
    rw [byteCount_append]
    exact Nat.min_eq_left (Nat.le_add_right _ _)
  have isStart := reached.isStart behind
  have isLine : lineIndex? (lineStarts (front ++ behind)) (byteCount front) =
      some (startsBehind 0 before).length :=
    lineIndex?_eq (fun _ _ => reached.le_iff) (fun _ => reached.eq_of_start)
      (Array.getElem?_eq_some_iff.mp isStart).1
  have isInside : slice? (front ++ behind) (byteCount before) (byteCount front) = some inside := by
    rw [reached.split, byteCount_append, List.append_assoc]
    exact slice?_append before inside behind
  unfold position?
  simp only [within, isLine, isStart, isInside, Option.bind_eq_bind, Option.bind_some]
  rw [reached.arrives]
  rfl

theorem location?_upTo (front inside behind : List Char) :
    location? (front ++ (inside ++ behind)) (byteCount front) (byteCount (front ++ inside)) =
      some ((Place.origin.afterAll front).upTo
        ((Place.origin.afterAll front).afterAll inside)) := by
  unfold location? Place.upTo
  rw [position?_byteCount, ← Place.afterAll_append, Place.offset_afterAll_eq,
    Place.offset_afterAll_eq, Place.position_afterAll]
  simp only [Place.origin, Nat.zero_add]
  rfl

private theorem map_start_cut (start offset : Nat) (current rest : List Char) :
    (Line.cut start offset current rest).map Line.start = start :: startsBehind offset rest := by
  induction rest generalizing start offset current with
  | nil => rfl
  | cons first rest inductionHypothesis =>
      rw [Line.cut, startsBehind]
      split
      · rw [List.map_cons, inductionHypothesis]
      · exact inductionHypothesis _ _ _

/-- The characters of a line stand in the text from its start up to the newline before the start of
the next line, or up to the end. -/
theorem exists_split_of_cut {current rest : List Char} {line : Line}
    (stands : start + byteCount current = offset)
    (isLine : (Line.cut start offset current rest)[index]? = some line) :
    ∃ before after, current.reverse ++ rest = before ++ (line.characters ++ after) ∧
      line.start = start + byteCount before ∧
      match (startsBehind offset rest)[index]? with
      | some next => next = line.start + byteCount line.characters + 1
      | none => after = [] := by
  induction rest generalizing start offset current index with
  | nil =>
      cases index with
      | zero =>
          cases isLine
          exact ⟨[], [], by simp, rfl, rfl⟩
      | succ index => cases isLine
  | cons first rest inductionHypothesis =>
      rw [Line.cut] at isLine
      rw [startsBehind]
      split at isLine
      · rename_i isNewline
        rw [if_pos isNewline]
        cases index with
        | zero =>
            cases isLine
            refine ⟨[], first :: rest, rfl, rfl, ?_⟩
            change offset + 1 = start + byteCount current.reverse + 1
            rw [byteCount_reverse, stands]
        | succ index =>
            obtain ⟨before, after, split, begins, ends⟩ :=
              @inductionHypothesis (offset + 1) (offset + 1) index [] rfl isLine
            refine ⟨current.reverse ++ first :: before, after, ?_, ?_, ends⟩
            · rw [List.reverse_nil, List.nil_append] at split
              rw [split, List.append_assoc, List.cons_append]
            · have oneByte : first.utf8Size = 1 := by rw [isNewline]; rfl
              rw [begins, byteCount_append, byteCount_reverse, byteCount_cons, oneByte]
              omega
      · rename_i noNewline
        rw [if_neg noNewline]
        have further : start + byteCount (first :: current) = offset + first.utf8Size := by
          rw [byteCount_cons]
          omega
        obtain ⟨before, after, split, begins, ends⟩ := inductionHypothesis further isLine
        rw [List.reverse_cons, List.append_assoc] at split
        exact ⟨before, after, split, begins, ends⟩

private theorem lineAt?_eq (content : String) (index : Nat) :
    lineAt? content.toList index = some (Source.ofString content).lines[index]? := by
  have starts : (lineStarts content.toList)[index]? =
      ((Line.cut 0 0 [] content.toList)[index]?).map Line.start := by
    unfold lineStarts
    rw [← map_start_cut 0 0 [], List.getElem?_toArray, List.getElem?_map]
  have lines : (Source.ofString content).lines[index]? =
      (Line.cut 0 0 [] content.toList)[index]? := List.getElem?_toArray
  unfold lineAt?
  rw [starts, lines]
  cases isLine : (Line.cut 0 0 [] content.toList)[index]? with
  | none => rfl
  | some line =>
      obtain ⟨before, after, split, begins, ends⟩ :=
        @exists_split_of_cut 0 0 index [] _ _ rfl isLine
      rw [List.reverse_nil, List.nil_append] at split
      rw [Nat.zero_add] at begins
      have isSlice := slice?_append before line.characters after
      rw [← split, ← begins] at isSlice
      have stops : lineStop? content.toList index =
          some (line.start + byteCount line.characters) := by
        unfold lineStop? lineStarts
        rw [List.getElem?_toArray, List.getElem?_cons_succ]
        cases isNext : (startsBehind 0 content.toList)[index]? with
        | some next =>
            simp only [isNext] at ends
            rw [ends]
            exact sub?_of_le (Nat.le_add_left 1 _)
        | none =>
            simp only [isNext] at ends
            rw [split, ends, begins, byteCount_append, List.append_nil]
      simp only [Option.map_some, stops, Option.bind_eq_bind, Option.bind_some, isSlice]
      rfl

/-- The guarded operations show every line as the index of lines does. -/
theorem line?_eq (content : String) (number : Nat) :
    line? content.toList number = some ((Source.ofString content).line? number) := by
  cases number with
  | zero => rfl
  | succ index =>
      change (lineAt? content.toList index).map (Option.map Line.text) = _
      rw [lineAt?_eq]
      rfl

end SprigCompiler.Guarded
