import SprigCompiler.Proofs.Javascript.Grammar
import SprigCompiler.Proofs.Javascript.StringLiteral

/-!
Scripts of JavaScript in strict mode.

A script opens with the directive for strict mode.  Behind it stand expressions, declarations of
variables and declarations of functions, whose bodies may also return values.  The rules hold what
strict mode asks for: a declared name is neither reserved nor `eval` nor `arguments`, the parameters
of a function differ from each other, and a string has no octal escape.  Other forms of statements
are left out.
-/

namespace SprigCompiler.Javascript

def IsLiteral (written : List Char) : Prop := ∃ value, readLiteral? written = some (value, [])

mutual
def Expression.strings : Expression → List (List Char)
  | .name _ | .boolean _ | .number _ => []
  | .string written => [written]
  | .negative operand => operand.strings
  | .call callee arguments => callee.strings ++ stringsAmong arguments
  | .binary _ left right => left.strings ++ right.strings

def stringsAmong : List Expression → List (List Char)
  | [] => []
  | tree :: rest => tree.strings ++ stringsAmong rest
end

def Expression.Readable (tree : Expression) : Prop := ∀ written ∈ tree.strings, IsLiteral written

def IsBindable (name : String) : Prop := name ∉ reservedWords ∧ name ∉ ["eval", "arguments"]

instance : DecidablePred IsBindable := fun name =>
  inferInstanceAs (Decidable (name ∉ reservedWords ∧ name ∉ ["eval", "arguments"]))

namespace Token

def semicolon : Token := .sign [';']

def equals : Token := .sign ['=']

def openBrace : Token := .sign ['\x7b']

def closeBrace : Token := .sign ['\x7d']

def ofWord (word : String) : Token := .word word.toList

end Token

def IsExpression (tokens : List Token) : Prop := ∃ tree, Derives .sum tokens tree ∧ tree.Readable

def parameterTokens (parameters : List String) : List Token :=
  separated (parameters.map fun parameter => [Token.ofWord parameter])

/-- The tokens of a statement; `inside` says that it stands in a function. -/
inductive ScriptStatement : Bool → List Token → Prop where
  | expression {inside : Bool} {tokens : List Token} (isExpression : IsExpression tokens) :
      ScriptStatement inside (tokens ++ [.semicolon])
  | binding {inside : Bool} {name : String} {tokens : List Token} (isBindable : IsBindable name)
      (isExpression : IsExpression tokens) :
      ScriptStatement inside
        (.ofWord "var" :: .ofWord name :: .equals :: (tokens ++ [.semicolon]))
  | result {tokens : List Token} (isExpression : IsExpression tokens) :
      ScriptStatement true (.ofWord "return" :: (tokens ++ [.semicolon]))
  | function {inside : Bool} {name : String} {parameters : List String} {body : List (List Token)}
      (isBindable : IsBindable name) (areBindable : ∀ parameter ∈ parameters, IsBindable parameter)
      (distinct : parameters.Nodup)
      (statements : ∀ statement ∈ body, ScriptStatement true statement) :
      ScriptStatement inside
        (.ofWord "function" :: .ofWord name :: .opening :: (parameterTokens parameters ++
          .closing :: .openBrace :: (body.flatten ++ [.closeBrace])))

def directive : List Token := [.string "'use strict'".toList, .semicolon]

def IsStrictScript (text : List Char) : Prop :=
  ∃ statements : List (List Token), (∀ statement ∈ statements, ScriptStatement false statement) ∧
    tokens? text = some (directive ++ statements.flatten)

/-- An expression starts with a token that is one by itself, a parenthesis or a minus. -/
theorem Derives.starts {phrase : Phrase} {tokens : List Token} {tree : Expression}
    (derivation : Derives phrase tokens tree) : ∃ first rest, tokens = first :: rest ∧
      ((∃ leaf, Leaf first leaf) ∨ first = .opening ∨ first = .minus) := by
  induction derivation with
  | leaf isLeaf => exact ⟨_, [], rfl, .inl ⟨_, isLeaf⟩⟩
  | parentheses => exact ⟨_, _, rfl, .inr (.inl rfl)⟩
  | negative => exact ⟨_, _, rfl, .inr (.inr rfl)⟩
  | call front inside frontHypothesis _ =>
      obtain ⟨first, rest, rfl, isStart⟩ := frontHypothesis
      exact ⟨first, _, rfl, isStart⟩
  | binary isOperator left right leftHypothesis _ =>
      obtain ⟨first, rest, rfl, isStart⟩ := leftHypothesis
      exact ⟨first, _, rfl, isStart⟩
  | inner isLooser inside inductionHypothesis => exact inductionHypothesis

section Starts

variable {word : String} {tokens rest others : List Token}

/-- No expression starts with a reserved word that is no value. -/
theorem IsExpression.append_ne (isExpression : IsExpression tokens)
    (isReserved : word ∈ reservedWords) (noValue : word ∉ ["true", "false"]) :
    tokens ++ others ≠ .ofWord word :: rest := by
  obtain ⟨tree, derivation, _⟩ := isExpression
  obtain ⟨first, tail, rfl, isStart⟩ := derivation.starts
  intro same
  obtain rfl := (List.cons.inj same).1
  rcases isStart with ⟨leaf, isLeaf⟩ | isOpening | isMinus
  · cases isLeaf with
    | name isName => exact isName (String.ofList_toList.symm ▸ isReserved)
    | @boolean _ value isValue =>
        rw [String.ofList_toList] at isValue
        rw [isValue] at noValue
        cases value <;> exact noValue (by decide)
  · cases isOpening
  · cases isMinus

/-- A statement that starts as the declaration of a variable is one. -/
theorem ScriptStatement.of_var {inside : Bool} (isStatement : ScriptStatement inside tokens)
    (same : tokens ++ others = .ofWord "var" :: rest) :
    ∃ name value, IsBindable name ∧ IsExpression value ∧
      rest = .ofWord name :: .equals :: (value ++ .semicolon :: others) := by
  cases isStatement with
  | expression isExpression =>
      rw [List.append_assoc] at same
      exact absurd same (isExpression.append_ne (by decide +kernel) (by decide))
  | binding isBindable isExpression =>
      refine ⟨_, _, isBindable, isExpression, (List.cons.inj same).2.symm.trans ?_⟩
      simp
  | result => exact absurd (List.cons.inj same).1 (by decide +kernel)
  | function => exact absurd (List.cons.inj same).1 (by decide +kernel)

/-- A statement that starts as the declaration of a function has parameters that differ. -/
theorem ScriptStatement.of_function {inside : Bool} (isStatement : ScriptStatement inside tokens)
    (same : tokens ++ others = .ofWord "function" :: rest) :
    ∃ name parameters more, IsBindable name ∧ (∀ parameter ∈ parameters, IsBindable parameter) ∧
      parameters.Nodup ∧
      rest = .ofWord name :: .opening :: (parameterTokens parameters ++ .closing :: more) := by
  cases isStatement with
  | expression isExpression =>
      rw [List.append_assoc] at same
      exact absurd same (isExpression.append_ne (by decide +kernel) (by decide))
  | binding => exact absurd (List.cons.inj same).1 (by decide +kernel)
  | result => exact absurd (List.cons.inj same).1 (by decide +kernel)
  | @function _ name parameters body isBindable areBindable distinct =>
      refine ⟨name, parameters, .openBrace :: (body.flatten ++ .closeBrace :: others), isBindable,
        areBindable, distinct, (List.cons.inj same).2.symm.trans ?_⟩
      simp

private theorem eq_of_commas {names parameters : List String}
    (same : (names.map fun name => [Token.ofWord name]).flatMap (Token.comma :: ·) ++
        .closing :: others =
      (parameters.map fun name => [Token.ofWord name]).flatMap (Token.comma :: ·) ++
        .closing :: rest) : names = parameters := by
  induction names generalizing parameters with
  | nil =>
      cases parameters with
      | nil => rfl
      | cons => exact absurd (List.cons.inj same).1 (by decide)
  | cons name names inductionHypothesis =>
      cases parameters with
      | nil => exact absurd (List.cons.inj same).1 (by decide)
      | cons parameter parameters =>
          obtain ⟨isSame, behind⟩ := List.cons.inj (List.cons.inj same).2
          rw [inductionHypothesis behind, String.toList_inj.mp (Token.word.inj isSame)]

/-- The names between parentheses are told by their tokens. -/
theorem eq_of_parameterTokens {names parameters : List String}
    (same : parameterTokens names ++ .closing :: others =
      parameterTokens parameters ++ .closing :: rest) : names = parameters := by
  cases names with
  | nil =>
      cases parameters with
      | nil => rfl
      | cons => exact Token.noConfusion (List.cons.inj same).1
  | cons name names =>
      cases parameters with
      | nil => exact Token.noConfusion (List.cons.inj same).1
      | cons parameter parameters =>
          obtain ⟨isSame, behind⟩ := List.cons.inj same
          rw [eq_of_commas behind, String.toList_inj.mp (Token.word.inj isSame)]

end Starts

theorem IsStrictScript.exists_first {text : List Char} {first : Token} {rest : List Token}
    (isScript : IsStrictScript text)
    (areTokens : tokens? text = some (directive ++ first :: rest)) :
    ∃ statement others, ScriptStatement false statement ∧ statement ++ others = first :: rest := by
  obtain ⟨statements, each, isText⟩ := isScript
  have same := List.append_cancel_left (Option.some.inj (areTokens.symm.trans isText))
  cases statements with
  | nil => cases same
  | cons statement others =>
      rw [List.flatten_cons] at same
      exact ⟨statement, others.flatten, each statement List.mem_cons_self, same.symm⟩

end SprigCompiler.Javascript
