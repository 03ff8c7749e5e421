import SprigCompiler.Compile
import SprigCompiler.Proofs.Javascript.Locations
import SprigCompiler.Proofs.Javascript.StringLiteral
import SprigCompiler.Proofs.Parser.Texts
import SprigCompiler.Proofs.Token.Writings

/-!
Strings from the text of a program to its JavaScript.
-/

namespace SprigCompiler.Javascript

open Grammar

def assignmentStart : List Char := "'use strict';\n\nvar x = ".toList

/-- The string that a program gives to `x`, if it does nothing else. -/
def assigned? (javascript : List Char) : Option (List Char) :=
  if assignmentStart.isPrefixOf javascript then
    match readLiteral? (javascript.drop assignmentStart.length) with
    | some (value, rest) => if rest = [';', '\n'] then some value else none
    | none => none
  else none

def bindingText (value : List Char) : List Char := "let x = ".toList ++ '"' :: (value ++ ['"'])

def bindingTree (value : List Char) (place : Location) : Node :=
  .program
    [.statement .binding
      (.assignment (.identifier "x" place) (.string (String.ofList value) place) place) place]
    place

variable {value : List Char}

private theorem assigned?_append (text : List Char) :
    assigned? (assignmentStart ++ (text ++ [';', '\n'])) =
      match readLiteral? (text ++ [';', '\n']) with
      | some (value, rest) => if rest = [';', '\n'] then some value else none
      | none => none := by
  have starts : assignmentStart.isPrefixOf (assignmentStart ++ (text ++ [';', '\n'])) = true := by
    rw [List.isPrefixOf_iff_prefix]
    exact List.prefix_append _ _
  unfold assigned?
  rw [if_pos starts, List.drop_left]

private theorem lexemes?_binding (noQuote : '"' ∉ value) :
    lexemes? (bindingText value) =
      some [⟨.keyword .letWord, "let"⟩, ⟨.identifier, "x"⟩, ⟨.operator .assign, "="⟩,
        ⟨.string, String.ofList value⟩] := by
  have isLast : (pieces "let x = ".toList).getLast? = some (.blank, [' ']) := by decide +kernel
  have apart : Apart "let x = ".toList ('"' :: (value ++ ['"'])) := by
    intro piece isPiece
    rw [isLast] at isPiece
    cases isPiece
    constructor
    · intro next isNext
      cases isNext
      rfl
    · intro isWord
      cases isWord
  have earlier : lexemes? "let x = ".toList =
      some [⟨.keyword .letWord, "let"⟩, ⟨.identifier, "x"⟩, ⟨.operator .assign, "="⟩] := by
    decide +kernel
  unfold bindingText
  rw [lexemes?_append apart, earlier, lexemes?_quoted noQuote, lexemes?_nil]
  rfl

private theorem program_binding (value : List Char) (place : Location) :
    Program [⟨.keyword .letWord, "let"⟩, ⟨.identifier, "x"⟩, ⟨.operator .assign, "="⟩,
        ⟨.string, String.ofList value⟩] (bindingTree value place) := by
  have body : Value [⟨.string, String.ofList value⟩] (.string (String.ofList value) place) :=
    .term (.literal (.string _ place))
  have declaration : LetDeclaration [⟨.keyword .letWord, "let"⟩, ⟨.identifier, "x"⟩,
      ⟨.operator .assign, "="⟩, ⟨.string, String.ofList value⟩] _ :=
    .declare "let" "=" place place (Name.name "x" place) body
  exact .statements place (.cons (Statement.binding declaration) .nil) (Nat.zero_le 1)

private theorem javascript?_bindingTree (value : List Char) (place : Location) :
    (bindingTree value place).javascript? =
      some ("'use strict';\n\nvar x = " ++ Quoted.text (String.ofList value) ++ ";\n") := by
  have start : "" ++ "'use strict';\n" ++ "\n" ++ "var " ++ "x" ++ " = " =
      "'use strict';\n\nvar x = " := by
    decide
  have stop : ";" ++ "\n" = ";\n" := by decide
  have isText : "" ++ "'use strict';\n" ++ "\n" ++ "var " ++ "x" ++ " = " ++
      Quoted.text (String.ofList value) ++ ";" ++ "\n" =
      "'use strict';\n\nvar x = " ++ Quoted.text (String.ofList value) ++ ";\n" := by
    rw [start, String.append_assoc, stop]
  exact congrArg some isText

/-- The program that gives a string to `x` compiles to one literal. -/
theorem compile_binding (noQuote : '"' ∉ value) :
    ∃ compiled, compile (String.ofList (bindingText value)) = .ok compiled ∧
      compiled.javascript =
        "'use strict';\n\nvar x = " ++ Quoted.text (String.ofList value) ++ ";\n" := by
  obtain ⟨node, parsed, alike⟩ :=
    parse_complete (lexemes?_binding noQuote) (program_binding value ⟨0, 0, 0, 0⟩)
  have isJavascript := alike.javascript?_eq.trans (javascript?_bindingTree value _)
  refine ⟨⟨node, _⟩, ?_, rfl⟩
  unfold compile
  rw [parsed]
  simp only [isJavascript]

private theorem assigned?_compiled (value : List Char) :
    assigned? ("'use strict';\n\nvar x = " ++ Quoted.text (String.ofList value) ++ ";\n").toList =
      if nulBeforeDigit isUnprintable value then none else some value := by
  have isText : ("'use strict';\n\nvar x = " ++ Quoted.text (String.ofList value) ++ ";\n").toList =
      assignmentStart ++ (Quoted.enclose isUnprintable '"' value ++ [';', '\n']) := by
    unfold Quoted.text
    simp only [String.toList_append, String.toList_ofList, List.append_assoc]
    rfl
  rw [isText, assigned?_append, readLiteral?_enclose]
  cases nulBeforeDigit isUnprintable value <;> rfl

/-- The text of a string literal is one literal of JavaScript with the value of the string, and a
program that gives a string to `x` compiles to one that does so too, unless a null character in the
string stands directly in front of a digit that shows: then the text is no literal. -/
theorem stringLiteral_denotes (hidden : Char → Bool) (value : List Char) :
    (∀ more, readLiteral? (Quoted.enclose hidden '"' value ++ more) =
      if nulBeforeDigit hidden value then none else some (value, more)) ∧
    (∀ place, (Node.string (String.ofList value) place).javascript? =
      some (String.ofList (Quoted.enclose isUnprintable '"' value))) ∧
    ('"' ∉ value → ∃ compiled, compile (String.ofList (bindingText value)) = .ok compiled ∧
      assigned? compiled.javascript.toList =
        if nulBeforeDigit isUnprintable value then none else some value) := by
  refine ⟨readLiteral?_enclose hidden value, ?_, ?_⟩
  · intro place
    have written : (Node.string (String.ofList value) place).javascript? =
        some ("" ++ Quoted.text (String.ofList value)) := rfl
    rw [written, String.empty_append]
    unfold Quoted.text
    rw [String.toList_ofList]
    rfl
  · intro noQuote
    obtain ⟨compiled, isCompiled, isText⟩ := compile_binding noQuote
    refine ⟨compiled, isCompiled, ?_⟩
    rw [isText, assigned?_compiled]

theorem stringLiteral_denotes_nul_letter :
    '"' ∉ ['\x00', 'a'] ∧ ∃ compiled,
      compile (String.ofList (bindingText ['\x00', 'a'])) = .ok compiled ∧
        assigned? compiled.javascript.toList = some ['\x00', 'a'] := by
  have noQuote : '"' ∉ ['\x00', 'a'] := by decide
  exact ⟨noQuote, (stringLiteral_denotes isUnprintable ['\x00', 'a']).2.2 noQuote⟩

/-- A null character in front of a digit: `"\01"` is no literal in strict mode. -/
theorem not_stringLiteral_denotes :
    ¬∀ value : List Char, '"' ∉ value →
      readLiteral? (Quoted.enclose isUnprintable '"' value) = some (value, []) ∧
      ∃ compiled, compile (String.ofList (bindingText value)) = .ok compiled ∧
        assigned? compiled.javascript.toList = some value := by
  intro all
  have denoted := (all ['\x00', '1'] (by decide)).1
  revert denoted
  decide

end SprigCompiler.Javascript
