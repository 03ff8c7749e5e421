import SprigCompiler.Proofs.Parser.Texts
import SprigCompiler.Proofs.Token.Writings
import SprigCompiler.Tree.Walk

/-!
The two ways to write an application mean the same.

A name with its arguments in a row, and the name with the same arguments between delimiters, have
lexemes that differ in the delimiters and commas only.  So the text around them makes a program with
one exactly when it makes a program with the other, and the trees are equal up to locations.
-/

namespace SprigCompiler

open Grammar

/-- Where a name with arguments can stand: what is before the name and what is behind its arguments
are no parts of names with arguments. -/
structure Surrounds (before after : List Char) (name : Word) : Prop where
  apart : Apart before name.characters
  outside : ∀ lexemes ∈ lexemes? before, ∀ last ∈ lexemes.getLast?, last.kind.inArguments = false
  follow : ∀ lexemes ∈ lexemes? after, ∀ next ∈ lexemes.head?, next.kind.inArguments = false

/-- The delimiters of arguments behind a text: parentheses everywhere, and angles in a statement
about a type. -/
inductive Encloses (before : List Char) : Char → Char → Prop where
  | parens : Encloses before '(' ')'
  | angles {lexemes : List Lexeme} (isLexemes : lexemes? before = some lexemes)
      (isType : nearest none lexemes = some (.keyword .typeWord)) : Encloses before '<' '>'

variable {text other before after : List Char} {name : Word} {arguments : List Written}

private theorem lexemes?_named (place : Surrounds before after name)
    (isName : name.isBoolean = false)
    (stops : ∀ next ∈ text.head?, Piece.isWordCharacter next = false) :
    lexemes? (before ++ (name.characters ++ text)) =
      (lexemes? before).bind fun earlier => (lexemes? text).map fun later =>
        earlier ++ ⟨.identifier, String.ofList name.characters⟩ :: later := by
  have notFinished : finishes name.characters = false := by
    obtain ⟨characters, nonempty, letters, _⟩ := name
    cases characters with
    | nil => exact absurd rfl nonempty
    | cons first rest => exact finishes_of_condition (letters first List.mem_cons_self) rfl
  have apart := place.apart.append_right name.nonempty notFinished text
  rw [lexemes?_append apart, lexemes?_word name stops, name.isName isName]
  simp only [Option.map_map]
  rfl

private theorem Encloses.delimiters {opening closing : Char}
    (enclosing : Encloses before opening closing) :
    ∃ openingKind closingKind,
      (∀ rest, Piece.split opening rest = (.sign openingKind, [], rest)) ∧
      (∀ rest, Piece.split closing rest = (.sign closingKind, [], rest)) ∧
      opening ∈ ending ∧ closing ∈ [')', '>'] ∧
      ∀ lexemes ∈ lexemes? before, ∀ form, Fits (nearest none lexemes) form →
        Delimiters form openingKind closingKind := by
  cases enclosing with
  | parens =>
      refine ⟨.openParen, .closeParen, fun _ => rfl, fun _ => rfl, by decide, by decide, ?_⟩
      intro _ _ form _
      exact .parens form
  | angles isLexemes isType =>
      refine ⟨.openAngle, .closeAngle, fun _ => rfl, fun _ => rfl, by decide, by decide, ?_⟩
      intro lexemes isFound form fits
      rw [isLexemes] at isFound
      cases isFound
      rcases fits isType with rfl | rfl
      · exact .declared
      · exact .applied

/-- Wherever a name with arguments can stand, writing the arguments in a row or between delimiters
gives programs with equal trees up to locations, when each `true` and `false` among them is directly
followed by a blank, a line break or the end of the text in both writings or in neither. -/
theorem tree?_juxtaposed_eq_enclosed {opening closing : Char} (blanks : List Blank)
    (place : Surrounds before after name) (isName : name.isBoolean = false)
    (nonempty : arguments ≠ [])
    (ends : ∀ last ∈ arguments.getLast?, ∀ next ∈ after.head?, last.argument.takes next = false)
    (enclosing : Encloses before opening closing) (alike : FinishedAlike after arguments) :
    tree? (before ++ (name.characters ++ (juxtaposed arguments ++ after))) =
      tree? (before ++ (name.characters ++ (enclosed opening closing blanks arguments ++ after))) := by
  obtain ⟨openingKind, closingKind, starts, stops, opens, closes, delimiters⟩ := enclosing.delimiters
  have rowApart : ∀ next ∈ (juxtaposed arguments ++ after).head?,
      Piece.isWordCharacter next = false := by
    rcases head?_juxtaposed arguments with isEmpty | isEnding
    · exact absurd isEmpty nonempty
    · exact fun next isNext => not_word_of_ending (isEnding next isNext)
  have enclosedApart : ∀ next ∈ (enclosed opening closing blanks arguments ++ after).head?,
      Piece.isWordCharacter next = false := by
    intro next isNext
    unfold enclosed at isNext
    rw [List.append_assoc, List.cons_append] at isNext
    exact not_word_of_ending (head?_gap opens next isNext)
  have row := lexemes?_named place isName rowApart
  have delimitedRow := lexemes?_named place isName enclosedApart
  rw [lexemes?_juxtaposed ends] at row
  rw [lexemes?_enclosed blanks nonempty starts stops closes alike] at delimitedRow
  -- Both texts have the lexemes around the name in common, if these texts have lexemes at all.
  refine tree?_congr ?_
  intro node
  rw [row, delimitedRow]
  cases isBefore : lexemes? before with
  | none => rfl
  | some earlier =>
      cases isAfter : lexemes? after with
      | none => rfl
      | some later =>
          have isRow : rowLexemes after arguments ≠ [] := rowLexemes_ne_nil nonempty
          have same : Program (earlier ++ ⟨.identifier, String.ofList name.characters⟩ ::
                (rowLexemes after arguments ++ later)) node ↔
              Program (earlier ++ ⟨.identifier, String.ofList name.characters⟩ ::
                (delimited ⟨openingKind, String.ofList [opening]⟩
                  ⟨closingKind, String.ofList [closing]⟩ (rowLexemes after arguments) ++ later))
                node :=
            program_delimited_iff (place.outside earlier isBefore) rfl isRow
              (fun _ => isAtom_of_mem_rowLexemes) (place.follow later isAfter)
              (delimiters earlier isBefore)
          simpa only [Option.bind_some, Option.map_some, Option.some.injEq, exists_eq_left'] using same

def letterF : Word := ⟨['f'], List.cons_ne_nil _ _, List.all_eq_true.mp rfl, by decide⟩

/-- The word `true`, behind a space in a row and in front of some blanks between delimiters. -/
def writtenTrue (right : List Blank) : Written :=
  ⟨.word ⟨['t', 'r', 'u', 'e'], List.cons_ne_nil _ _, List.all_eq_true.mp rfl, by decide⟩, .space,
    [], [], right⟩

theorem surrounds_letterF : Surrounds "let x = ".toList [] letterF where
  apart := by
    have isLast : (pieces "let x = ".toList).getLast? = some (.blank, [' ']) := by decide +kernel
    intro piece isPiece
    rw [isLast] at isPiece
    cases isPiece
    constructor
    · intro next isNext
      cases isNext
      rfl
    · intro isWord
      cases isWord
  outside := by decide +kernel
  follow := by decide +kernel

/-- A blank behind `true` keeps it a boolean between parentheses. -/
theorem tree?_juxtaposed_eq_enclosed_true :
    (tree? "let x = f true".toList).isSome = true ∧
      tree? "let x = f true".toList = tree? "let x = f(true )".toList := by
  have alike : FinishedAlike [] [writtenTrue [.space]] := by
    unfold FinishedAlike FinishedAlike
    decide
  have row : "let x = f true".toList = "let x = ".toList ++
      (letterF.characters ++ (juxtaposed [writtenTrue [.space]] ++ [])) := by
    decide +kernel
  have parenthesised : "let x = f(true )".toList = "let x = ".toList ++
      (letterF.characters ++ (enclosed '(' ')' [] [writtenTrue [.space]] ++ [])) := by
    decide +kernel
  refine ⟨by decide +kernel, ?_⟩
  rw [row, parenthesised]
  exact tree?_juxtaposed_eq_enclosed [] surrounds_letterF (by decide) (List.cons_ne_nil _ _)
    (fun _ _ _ isNext => by cases isNext) .parens alike

/-- Without the last condition the two writings differ: directly in front of a parenthesis `true` is
a name. -/
theorem not_tree?_juxtaposed_eq_enclosed :
    ¬∀ (before after : List Char) (name : Word) (arguments : List Written) (opening closing : Char)
      (blanks : List Blank), Surrounds before after name → name.isBoolean = false →
      arguments ≠ [] →
      (∀ last ∈ arguments.getLast?, ∀ next ∈ after.head?, last.argument.takes next = false) →
      Encloses before opening closing →
      tree? (before ++ (name.characters ++ (juxtaposed arguments ++ after))) =
        tree? (before ++
          (name.characters ++ (enclosed opening closing blanks arguments ++ after))) := by
  intro all
  have same := all "let x = ".toList [] letterF [writtenTrue []] '(' ')' [] surrounds_letterF
    (by decide) (List.cons_ne_nil _ _) (fun _ _ _ isNext => by cases isNext) .parens
  have kinds := congrArg (Option.map fun tree => (tree.preorder 0).map (·.2.kind)) same
  revert kinds
  decide +kernel

end SprigCompiler
