import SprigCompiler.Compile
import SprigCompiler.Proofs.Parser.Failures
import SprigCompiler.Proofs.Text.Excerpts
import SprigCompiler.Proofs.Token.Coverage
import SprigCompiler.Proofs.Token.Meanings

/-!
Diagnostics point at what they are about.

Whatever a parser blames stands somewhere in the text, and the error has the position of its first
character.  So the line that a diagnostic shows exists, and the caret stands below that character.
-/

namespace SprigCompiler

/-- Whether an error reports some characters of a text, which stand behind the characters `front`:
the first character that tokens leave over, a token, the second main keyword, the opening brace of a
block that is not closed, the first token of a child that its parent does not admit, or nothing
behind the whole text. -/
inductive ParseError.Reports (content : String) : ParseError → List Char → List Char → Prop where
  | lexical {error : LexicalError} {tokens : List Token} {front behind : List Char}
      (read : Token.ofText? false content = .ok tokens)
      (isFirst : FirstLeftOver content tokens front error.character behind) :
      Reports content (.lexical error) front [error.character]
  | unexpectedToken {tokens : List Token} {token : Token} {front inside behind : List Char}
      (read : Token.ofText? true content = .ok tokens) (isMember : token ∈ tokens)
      (covers : token.location.Covers content front inside behind) :
      Reports content (.unexpectedToken token.kind token.text token.position) front inside
  | unexpectedEnd (position : Position) :
      Reports content (.unexpectedEnd position) content.toList []
  | duplicateEntry {before after : List Token} {token : Token} {front behind : List Char}
      (read : Token.ofText? true content = .ok (before ++ token :: after))
      (isMain : token.kind = .keyword .mainWord) (once : before.countP Token.isMain = 1)
      (covers : token.location.Covers content front "main".toList behind) :
      Reports content (.duplicateEntry token.position) front "main".toList
  | incomplete {tokens : List Token} {token : Token} {front behind : List Char}
      (read : Token.ofText? true content = .ok tokens) (isMember : token ∈ tokens)
      (opens : token.kind = .openBrace)
      (covers : token.location.Covers content front ['\x7b'] behind) :
      Reports content (.incomplete token.position) front ['\x7b']
  | invalidNode {error : ValidationError} {tokens rest : List Token} {first : Token} {child : Node}
      {front inside behind : List Char} (read : Token.ofText? true content = .ok tokens)
      (row : first :: rest <:+: tokens) (built : Built (first :: rest) [child])
      (starts : Starts first child) (found : error.found = some child.kind)
      (refused : child.kind ∉ error.expected) (located : error.location = child.location)
      (covers : first.location.Covers content front inside behind) :
      Reports content (.invalidNode error) front inside

variable {content : String} {tokens : List Token} {token : Token} {error : ParseError}

/-- A token as characters of the text: it covers some, its position is theirs, and they start
neither with a newline nor with a carriage return. -/
theorem exists_covers (read : Token.ofText? true content = .ok tokens)
    (isMember : token ∈ tokens) :
    ∃ front inside behind, token.location.Covers content front inside behind ∧
      (Source.ofString content).position? (byteCount front) = some token.position ∧
      (∃ first rest, inside = first :: rest ∧ first ≠ '\n' ∧ first ≠ '\r') ∧
      (token.kind = .openBrace → inside = ['\x7b']) ∧
      (token.kind = .keyword .mainWord → inside = "main".toList) := by
  obtain ⟨front, inside, behind, written⟩ := exists_written read token isMember
  obtain ⟨kind, finished, fits, means⟩ := written.means
  have position := written.covers.position
  rw [written.covers.start] at position
  exact ⟨front, inside, behind, written.covers, position, fits.exists_first means.kind_ne,
    means.eq_openBrace fits, means.eq_main fits⟩

/-- Whether an error reports characters of a text and has the position of the first, which is
neither a newline nor a carriage return, but at the end of the text and for a carriage return that
is left over. -/
def ParseError.Located (content : String) (error : ParseError) : Prop :=
  ∃ front construct behind, content.toList = front ++ (construct ++ behind) ∧
    error.Reports content front construct ∧
    (Source.ofString content).position? (byteCount front) = some error.position ∧
    ((∀ position, error ≠ .unexpectedEnd position) →
      (∀ position, error ≠ .lexical ⟨'\r', position⟩) →
      ∃ first rest, construct = first :: rest ∧ first ≠ '\n' ∧ first ≠ '\r')

private theorem Blames.located (read : Token.ofText? true content = .ok tokens)
    (blames : Blames (.ofString content) tokens error) : error.Located content := by
  cases blames with
  | token isMember =>
      obtain ⟨front, inside, behind, covers, position, first, -⟩ := exists_covers read isMember
      exact ⟨front, inside, behind, covers.whole, .unexpectedToken read isMember covers, position,
        fun _ _ => first⟩
  | ending =>
      refine ⟨content.toList, [], [], by simp, .unexpectedEnd _, ?_, fun noEnd => ?_⟩
      · exact Source.position?_byteCount (List.append_nil _).symm
      · exact absurd rfl (noEnd _)
  | opening isMember opens =>
      obtain ⟨front, inside, behind, covers, position, first, isBrace, -⟩ :=
        exists_covers read isMember
      obtain rfl := isBrace opens
      exact ⟨front, _, behind, covers.whole, .incomplete read isMember opens covers, position,
        fun _ _ => first⟩
  | child placed found refused isChild =>
      obtain ⟨first, rest, row, built, starts⟩ := placed
      have isMember : first ∈ tokens := row.subset List.mem_cons_self
      obtain ⟨front, inside, behind, covers, position, isFirst, -⟩ := exists_covers read isMember
      refine ⟨front, inside, behind, covers.whole,
        .invalidNode read row built starts found refused isChild covers, ?_, fun _ _ => isFirst⟩
      rw [position, ParseError.position, isChild, starts.position]
      rfl

private theorem BlamesSecondMain.located (read : Token.ofText? true content = .ok tokens)
    (blames : BlamesSecondMain tokens error) : error.Located content := by
  obtain ⟨before, token, after, rfl, isMain, once, rfl⟩ := blames
  obtain ⟨front, inside, behind, covers, position, first, -, isWord⟩ :=
    exists_covers read (List.mem_append_right _ List.mem_cons_self)
  have isKeyword : token.kind = .keyword .mainWord := eq_of_beq isMain
  obtain rfl := isWord isKeyword
  exact ⟨front, _, behind, covers.whole, .duplicateEntry read isKeyword once covers, position,
    fun _ _ => first⟩

private theorem located_of_stray {stray : LexicalError}
    (read : Token.ofText? true content = .error stray) :
    (ParseError.lexical stray).Located content := by
  rw [ofText?_eq] at read
  cases isFirst : Token.firstStray? (Piece.cut .origin content.toList) with
  | none =>
      rw [isFirst] at read
      cases read
  | some error =>
      rw [isFirst] at read
      cases read
      obtain ⟨earlier, later, split, plain, position⟩ := @firstStray?_cut [] _ _ isFirst
      have leftOver := (tokenized_ofPieces content).firstLeftOver split plain
      refine ⟨_, _, _, leftOver.stands, .lexical rfl leftOver, ?_, fun _ noReturn => ?_⟩
      · rw [Source.position?_byteCount leftOver.stands, ParseError.position, position]
        rfl
      · refine ⟨stray.character, [], rfl, leftOver.leftOver.noLineBreak.1, ?_⟩
        intro isReturn
        exact noReturn stray.position (by rw [← isReturn])

/-- Every error of a text that is no program is located. -/
theorem located_of_parse (failed : parse content = .error error) : error.Located content := by
  cases read : Token.ofText? true content with
  | error stray =>
      rw [parse_eq_of_stray read] at failed
      cases failed
      exact located_of_stray read
  | ok tokens =>
      rw [parse_eq_of_tokens read, Parser.ofTokens_eq_between] at failed
      rcases Parse.program_blames failed with blames | blames
      · exact blames.located read
      · exact blames.located read

/-- Without colours a diagnostic is its message, the line and the caret. -/
theorem renderError_of_line {line : String}
    (isLine : (Source.ofString content).line? error.position.line = some line) :
    renderError false content error =
      "ERROR: " ++ error.message ++ "\n" ++
        toString error.position.line ++ " | " ++ line ++ "\n" ++
        Diagnostic.blanks (toString error.position.line).length ++ " | " ++
          Diagnostic.blanks error.position.column ++ "^\n" := by
  unfold renderError Diagnostic.render
  rw [isLine]
  apply String.toList_inj.mp
  simp [Diagnostic.excerpt, Emphasis.paint]

/-- Diagnostics point at what they report: an error has the position of the characters that it
reports, the line of the position exists and is shown with a caret below the column, and there the
line shows the first of these characters.  At the end of the text there is no such character, and a
carriage return that is left over may not be shown. -/
theorem parse_error_shown (failed : parse content = .error error) :
    ∃ front construct behind line,
      content.toList = front ++ (construct ++ behind) ∧
      error.Reports content front construct ∧
      (Source.ofString content).position? (byteCount front) = some error.position ∧
      (Source.ofString content).line? error.position.line = some line ∧
      renderError false content error =
        "ERROR: " ++ error.message ++ "\n" ++
          toString error.position.line ++ " | " ++ line ++ "\n" ++
          Diagnostic.blanks (toString error.position.line).length ++ " | " ++
            Diagnostic.blanks error.position.column ++ "^\n" ∧
      ((∀ position, error ≠ .unexpectedEnd position) →
        (∀ position, error ≠ .lexical ⟨'\r', position⟩) →
        ∃ first rest, construct = first :: rest ∧
          line.toList[error.position.column]? = some first) := by
  obtain ⟨front, construct, behind, whole, reports, position, exists_first⟩ :=
    located_of_parse failed
  obtain ⟨line, isLine, shown⟩ := Source.exists_line? whole
  have arrived := position
  rw [Source.position?_byteCount whole, Option.some.injEq] at arrived
  rw [arrived] at isLine shown
  refine ⟨front, construct, behind, line, whole, reports, position, isLine,
    renderError_of_line isLine, fun noEnd noReturn => ?_⟩
  obtain ⟨first, rest, rfl, noNewline, noReturn⟩ := exists_first noEnd noReturn
  exact ⟨first, rest, rfl, shown first rfl noNewline noReturn⟩

/-- A second main keyword, on a line of its own behind two blanks. -/
theorem parse_error_shown_main :
    let content := "main f\r\n  main g"
    let error : ParseError := .duplicateEntry ⟨2, 2⟩
    parse content = .error error ∧
      ∃ front construct behind line,
        content.toList = front ++ (construct ++ behind) ∧
        error.Reports content front construct ∧
        (Source.ofString content).position? (byteCount front) = some error.position ∧
        (Source.ofString content).line? error.position.line = some line ∧
        renderError false content error =
          "ERROR: " ++ error.message ++ "\n" ++
            toString error.position.line ++ " | " ++ line ++ "\n" ++
            Diagnostic.blanks (toString error.position.line).length ++ " | " ++
              Diagnostic.blanks error.position.column ++ "^\n" ∧
        ((∀ position, error ≠ .unexpectedEnd position) →
          (∀ position, error ≠ .lexical ⟨'\r', position⟩) →
          ∃ first rest, construct = first :: rest ∧
            line.toList[error.position.column]? = some first) := by
  intro content error
  have read : Token.ofText? true content = .ok [⟨.keyword .mainWord, "main", ⟨1, 0, 0, 4⟩⟩,
      ⟨.identifier, "f", ⟨1, 5, 5, 6⟩⟩, ⟨.keyword .mainWord, "main", ⟨2, 2, 10, 14⟩⟩,
      ⟨.identifier, "g", ⟨2, 7, 15, 16⟩⟩] := by
    decide +kernel
  have failed : parse content = .error error := (parse_eq_of_tokens read).trans rfl
  exact ⟨failed, parse_error_shown failed⟩

end SprigCompiler
