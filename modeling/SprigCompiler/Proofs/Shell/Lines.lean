import SprigCompiler.Shell.Session

/-!
Lines of the input.

The shell reads bytes, and a read ends behind the byte of a newline.  In the bytes of a text that
byte stands for a newline and nothing else, so that the reads give the lines of the text, one after
the other, however the bytes are cut into chunks.
-/

namespace SprigCompiler.Shell

/-- The lines of a text, each with the newline behind it. -/
def lines : List Char → List (List Char)
  | [] => []
  | first :: rest =>
      if first = '\n' then [first] :: lines rest
      else
        match lines rest with
        | [] => [[first]]
        | line :: others => (first :: line) :: others

def linesOf (text : String) : List String := (lines text.toList).map String.ofList

def encode (characters : List Char) : List UInt8 := characters.flatMap String.utf8EncodeChar

variable {front rest : List Char} {bytes current : List UInt8}

private theorem lines_single (single : '\n' ∉ front) (isSome : front ≠ []) :
    lines front = [front] := by
  induction front with
  | nil => exact absurd rfl isSome
  | cons first rest inductionHypothesis =>
      rw [List.mem_cons, not_or] at single
      obtain ⟨noNewline, others⟩ := single
      rw [lines, if_neg (Ne.symm noNewline)]
      cases rest with
      | nil => rfl
      | cons next rest => rw [inductionHypothesis others (List.cons_ne_nil next rest)]

private theorem lines_newline (single : '\n' ∉ front) (rest : List Char) :
    lines (front ++ '\n' :: rest) = (front ++ ['\n']) :: lines rest := by
  induction front with
  | nil => exact if_pos rfl
  | cons first front inductionHypothesis =>
      rw [List.mem_cons, not_or] at single
      obtain ⟨noNewline, others⟩ := single
      rw [List.cons_append, lines, if_neg (Ne.symm noNewline), inductionHypothesis others]
      rfl

theorem ne_nil_of_mem_lines {line text : List Char} (isLine : line ∈ lines text) : line ≠ [] := by
  induction text generalizing line with
  | nil => cases isLine
  | cons first rest inductionHypothesis =>
      rw [lines] at isLine
      split at isLine
      · rcases List.mem_cons.mp isLine with rfl | isOther
        · exact List.cons_ne_nil _ _
        · exact inductionHypothesis isOther
      · split at isLine
        · rw [List.mem_singleton.mp isLine]
          exact List.cons_ne_nil _ _
        · rename_i line others isCons
          rcases List.mem_cons.mp isLine with rfl | isOther
          · exact List.cons_ne_nil _ _
          · exact inductionHypothesis (isCons ▸ List.mem_cons_of_mem _ isOther)

private theorem newline_eq_ofNat {number : Nat} (isByte : number < 256) :
    newline = UInt8.ofNat number ↔ number = 10 := by
  rw [← UInt8.toNat_inj, UInt8.toNat_ofNat', Nat.mod_eq_of_lt isByte]
  exact eq_comm

/-- The byte of a newline stands for nothing else. -/
theorem newline_mem_utf8EncodeChar (character : Char) :
    newline ∈ String.utf8EncodeChar character ↔ character = '\n' := by
  have isNewline : character = '\n' ↔ character.val.toNat = 10 :=
    Char.ext_iff.trans UInt32.toNat_inj.symm
  rw [isNewline]
  unfold String.utf8EncodeChar
  dsimp only
  split
  · rw [List.mem_singleton, newline_eq_ofNat (by omega)]
  · -- All bytes of the other characters are greater than those of the simple ones.
    split
    · simp only [List.mem_cons, List.not_mem_nil, or_false]
      rw [newline_eq_ofNat (by omega), newline_eq_ofNat (by omega)]
      omega
    · split
      · simp only [List.mem_cons, List.not_mem_nil, or_false]
        rw [newline_eq_ofNat (by omega), newline_eq_ofNat (by omega),
          newline_eq_ofNat (by omega)]
        omega
      · simp only [List.mem_cons, List.not_mem_nil, or_false]
        rw [newline_eq_ofNat (by omega), newline_eq_ofNat (by omega),
          newline_eq_ofNat (by omega), newline_eq_ofNat (by omega)]
        omega

private theorem encode_append (front rest : List Char) :
    encode (front ++ rest) = encode front ++ encode rest :=
  List.flatMap_append

private theorem encode_eq_iff (bytes : List UInt8) (text : String) :
    encode text.toList = bytes ↔ text.toByteArray = ⟨bytes.toArray⟩ := by
  rw [← String.utf8Encode_toList]
  change _ ↔ (encode text.toList).toByteArray = _
  rw [← List.toByteArray_inj, ByteArray.ext_iff, ByteArray.ext_iff, List.data_toByteArray,
    List.data_toByteArray]

theorem decode?_eq_some_iff (bytes : List UInt8) (text : String) :
    decode? bytes = some text ↔ encode text.toList = bytes := by
  rw [encode_eq_iff]
  unfold decode? String.fromUTF8?
  constructor
  · intro decodes
    split at decodes
    · cases decodes
      rfl
    · cases decodes
  · intro isText
    have valid := text.isValidUTF8
    rw [isText] at valid
    rw [dif_pos valid, Option.some.injEq, ← String.toByteArray_inj]
    exact isText.symm

theorem decode?_encode (characters : List Char) :
    decode? (encode characters) = some (String.ofList characters) := by
  rw [decode?_eq_some_iff, String.toList_ofList]

theorem encode_ne_nil (isSome : front ≠ []) : encode front ≠ [] := by
  obtain ⟨first, rest, rfl⟩ := List.exists_cons_of_ne_nil isSome
  intro isEmpty
  have decodes := decode?_encode (first :: rest)
  have nothing := decode?_encode []
  rw [isEmpty] at decodes
  rw [show encode [] = [] from rfl, decodes, Option.some.injEq] at nothing
  exact List.cons_ne_nil first rest (String.ofList_injective nothing)

/-! ### Reads -/

def bytesAmong (signals : List Signal) : List UInt8 :=
  signals.filterMap fun
    | .chunk => none
    | .byte value => some value

private theorem bytesAmong_signals (chunks : List (List UInt8)) :
    bytesAmong (signals chunks) = chunks.flatten := by
  have single (chunk : List UInt8) : bytesAmong (.chunk :: chunk.map .byte) = chunk := by
    unfold bytesAmong
    rw [List.filterMap_cons, List.filterMap_map]
    exact List.filterMap_some
  induction chunks with
  | nil => rfl
  | cons chunk chunks inductionHypothesis =>
      change bytesAmong ((_ :: chunk.map .byte) ++ signals chunks) = chunk ++ chunks.flatten
      rw [← inductionHypothesis]
      exact List.filterMap_append.trans (congrArg (· ++ bytesAmong (signals chunks)) (single chunk))

/-- What is read does not depend on the chunks. -/
theorem map_bytes_readings (handed : Nat) (current : List UInt8) (signals : List Signal) :
    (readings handed current signals).map Reading.bytes =
      (readings 0 current ((bytesAmong signals).map .byte)).map Reading.bytes := by
  induction signals generalizing handed current with
  | nil =>
      unfold readings
      split <;> rfl
  | cons signal signals inductionHypothesis =>
      cases signal with
      | chunk => exact inductionHypothesis (handed + 1) current
      | byte value =>
          change _ = (readings 0 current (.byte value :: (bytesAmong signals).map .byte)).map _
          rw [readings, readings]
          split
          · rw [List.map_cons, List.map_cons, inductionHypothesis]
          · rw [inductionHypothesis]

/-- Bytes that are no newlines are kept until the line ends. -/
theorem readings_append (plain : newline ∉ bytes) (current : List UInt8) (rest : List Signal) :
    readings 0 current (bytes.map .byte ++ rest) = readings 0 (bytes.reverse ++ current) rest := by
  induction bytes generalizing current with
  | nil => rfl
  | cons value bytes inductionHypothesis =>
      rw [List.mem_cons, not_or] at plain
      obtain ⟨noNewline, others⟩ := plain
      rw [List.map_cons, List.cons_append, readings, if_neg (Ne.symm noNewline),
        inductionHypothesis others, List.reverse_cons, List.append_assoc]
      rfl

private theorem map_bytes_readings_encode (single : '\n' ∉ front) (rest : List Char) :
    (readings 0 (encode front).reverse ((encode rest).map .byte)).map Reading.bytes =
      (lines (front ++ rest)).map encode ++ [[]] := by
  induction rest generalizing front with
  | nil =>
      rw [List.append_nil]
      cases front with
      | nil => rfl
      | cons first front =>
          have isSome := encode_ne_nil (List.cons_ne_nil first front)
          rw [lines_single single (List.cons_ne_nil first front)]
          change (if (encode (first :: front)).reverse.isEmpty then _
            else _ : List Reading).map _ = _
          rw [if_neg (by rw [List.isEmpty_reverse, List.isEmpty_iff]; exact isSome)]
          rw [List.reverse_reverse]
          rfl
  | cons first rest inductionHypothesis =>
      by_cases isNewline : first = '\n'
      · subst isNewline
        have ends : (newline :: (encode front).reverse).reverse = encode (front ++ ['\n']) := by
          rw [List.reverse_cons, List.reverse_reverse, encode_append]
          rfl
        rw [lines_newline single, List.map_cons, List.cons_append, ← ends]
        exact congrArg _ (inductionHypothesis List.not_mem_nil)
      · have further : '\n' ∉ front ++ [first] := by
          rw [List.mem_append, List.mem_singleton, not_or]
          exact ⟨single, Ne.symm isNewline⟩
        have plain : newline ∉ String.utf8EncodeChar first :=
          isNewline ∘ (newline_mem_utf8EncodeChar first).mp
        have others := inductionHypothesis further
        have kept : (String.utf8EncodeChar first).reverse ++ (encode front).reverse =
            (encode (front ++ [first])).reverse := by
          rw [← List.reverse_append, encode_append]
          exact congrArg (fun bytes => (encode front ++ bytes).reverse) (List.append_nil _).symm
        have split : (encode (first :: rest)).map Signal.byte =
            (String.utf8EncodeChar first).map .byte ++ (encode rest).map .byte := List.map_append
        rw [List.append_assoc] at others
        rw [split, readings_append plain, kept]
        exact others

/-- The reads of a text give its lines and then nothing. -/
theorem map_bytes_readings_signals {chunks : List (List UInt8)} {text : String}
    (decodes : decode? chunks.flatten = some text) :
    (readings 0 [] (signals chunks)).map Reading.bytes =
      (lines text.toList).map encode ++ [[]] := by
  rw [map_bytes_readings, bytesAmong_signals, ← (decode?_eq_some_iff _ _).mp decodes]
  exact map_bytes_readings_encode List.not_mem_nil text.toList

end SprigCompiler.Shell
