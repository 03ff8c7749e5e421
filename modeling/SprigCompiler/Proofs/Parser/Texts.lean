import SprigCompiler.Proofs.Parser.Programs
import SprigCompiler.Proofs.Token.Lexemes

/-!
Reading a text is deriving a tree from its lexemes.
-/

namespace SprigCompiler

open Grammar

/-- The tree of a program without its locations. -/
def tree? (text : List Char) : Option Node :=
  (parse (String.ofList text)).toOption.map Node.unlocated

variable {text other : List Char}

theorem parse_eq_of_tokens {content : String} {tokens : List Token}
    (read : Token.ofText? true content = .ok tokens) :
    parse content = (Parse.program (.ofTokens (.ofString content) tokens)).1 := by
  have opened : Parser.ofSource? (.ofString content) =
      .ok (.ofTokens (.ofString content) tokens) := by
    unfold Parser.ofSource?
    rw [show (Source.ofString content).content = content from rfl, read]
  unfold parse
  rw [opened]

theorem parse_eq_of_stray {content : String} {error : LexicalError}
    (read : Token.ofText? true content = .error error) :
    parse content = .error (.lexical error) := by
  have failed : Parser.ofSource? (.ofString content) = .error error := by
    unfold Parser.ofSource?
    rw [show (Source.ofString content).content = content from rfl, read]
  unfold parse
  rw [failed]

theorem parse_sound {node : Node} (parsed : parse (String.ofList text) = .ok node) :
    ∃ lexemes, lexemes? text = some lexemes ∧ Program lexemes node := by
  rw [lexemes?_eq_ofText?]
  cases read : Token.ofText? true (String.ofList text) with
  | error error =>
      rw [parse_eq_of_stray read] at parsed
      cases parsed
  | ok tokens =>
      rw [parse_eq_of_tokens read] at parsed
      exact ⟨tokens.map Token.lexeme, rfl, Parse.program_sound parsed⟩

theorem parse_complete {lexemes : List Lexeme} {tree : Node}
    (isLexemes : lexemes? text = some lexemes) (derivation : Program lexemes tree) :
    ∃ node, parse (String.ofList text) = .ok node ∧ node.Alike tree := by
  rw [lexemes?_eq_ofText?] at isLexemes
  cases read : Token.ofText? true (String.ofList text) with
  | error error =>
      rw [read] at isLexemes
      cases isLexemes
  | ok tokens =>
      rw [read] at isLexemes
      cases isLexemes
      rw [parse_eq_of_tokens read]
      exact Parse.program_complete derivation

/-- A text has a tree exactly when its lexemes derive one. -/
theorem tree?_eq_some_iff (text : List Char) (tree : Node) :
    tree? text = some tree ↔
      ∃ lexemes, lexemes? text = some lexemes ∧
        ∃ node, Program lexemes node ∧ node.unlocated = tree := by
  unfold tree?
  constructor
  · intro isTree
    cases parsed : parse (String.ofList text) with
    | error error =>
        rw [parsed] at isTree
        cases isTree
    | ok node =>
        rw [parsed] at isTree
        obtain ⟨lexemes, isLexemes, derivation⟩ := parse_sound parsed
        exact ⟨lexemes, isLexemes, node, derivation, Option.some.inj isTree⟩
  · rintro ⟨lexemes, isLexemes, node, derivation, rfl⟩
    obtain ⟨found, parsed, alike⟩ := parse_complete isLexemes derivation
    rw [parsed]
    exact congrArg some alike

/-- Two texts whose lexemes derive the same trees have the same tree. -/
theorem tree?_congr
    (same : ∀ node, (∃ lexemes, lexemes? text = some lexemes ∧ Program lexemes node) ↔
      ∃ lexemes, lexemes? other = some lexemes ∧ Program lexemes node) :
    tree? text = tree? other := by
  apply Option.ext
  intro tree
  rw [tree?_eq_some_iff, tree?_eq_some_iff]
  constructor
  · rintro ⟨lexemes, isLexemes, node, derivation, isTree⟩
    obtain ⟨others, isOthers, derived⟩ := (same node).mp ⟨lexemes, isLexemes, derivation⟩
    exact ⟨others, isOthers, node, derived, isTree⟩
  · rintro ⟨lexemes, isLexemes, node, derivation, isTree⟩
    obtain ⟨others, isOthers, derived⟩ := (same node).mpr ⟨lexemes, isLexemes, derivation⟩
    exact ⟨others, isOthers, node, derived, isTree⟩

end SprigCompiler
