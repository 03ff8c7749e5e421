import SprigCompiler.Proofs.Compile.Concatenation
import SprigCompiler.Proofs.Javascript.Mentions

/-!
When emitted programs are scripts in strict mode.

The JavaScript of a program is a script in strict mode provided that its names are none that strict
mode sets aside where they stand, that the parameters of each function are names and differ, and
that no null character stands in front of a digit in a string.  Nothing checks the names: a program
may declare a reserved word, and then its JavaScript is no script.
-/

namespace SprigCompiler

namespace Javascript

private theorem separates_indentation (depth : Nat) :
    Separates (Page.indentation depth).toList [] := by
  unfold Page.indentation
  rw [String.toList_ofList]
  intro more
  induction 2 * depth with
  | zero => exact Option.map_id'.symm
  | succ count inductionHypothesis =>
      rw [List.replicate_succ, List.cons_append, tokens?_blank, inductionHypothesis]

private theorem separates_semicolon : Separates [';'] [.semicolon] := separates_sign fun _ => rfl

private theorem separates_openBrace : Separates ['\x7b'] [.openBrace] := separates_sign fun _ => rfl

private theorem separates_closeBrace :
    Separates ['\x7d'] [.closeBrace] := separates_sign fun _ => rfl

private theorem separates_equals : Separates " = ".toList [.equals] := by
  intro more
  have isEquals := tokens?_cons
    (show token? '=' (' ' :: more) = some (some .equals, ' ' :: more) from rfl)
  rw [tokens?_blank] at isEquals
  exact tokens?_blank.trans isEquals

private theorem separates_directive : Separates prelude.toList directive := by
  have isString : ∀ more, token? '\x27' ("use strict';".toList ++ more) =
      some (some (.string "'use strict'".toList), ';' :: more) := fun _ => rfl
  intro more
  change tokens? ('\x27' :: ("use strict';".toList ++ more)) = _
  rw [tokens?_cons (isString more), ← List.singleton_append, separates_semicolon, Option.map_map]
  rfl

private theorem separates_keyword {word : String} (isSome : word.toList ≠ [])
    (isWord : ∀ part ∈ word.toList, Piece.isWordCharacter part) :
    Separates (word ++ " ").toList [.ofWord word] := by
  rw [String.toList_append]
  exact (lexes_name isSome isWord).closed rfl separates_blank

private theorem separates_function : Separates "function ".toList [.ofWord "function"] :=
  @separates_keyword "function" (by decide) (List.all_eq_true.mp rfl)

/-- Whether a text is a statement, whatever stands behind it. -/
def States (inside : Bool) (text : String) : Prop :=
  ∃ tokens, Separates text.toList tokens ∧ ScriptStatement inside tokens

def StatesAll (inside : Bool) (text : String) : Prop :=
  ∃ statements : List (List Token), Separates text.toList statements.flatten ∧
    ∀ statement ∈ statements, ScriptStatement inside statement

def StatesBody (text : String) : Prop :=
  ∃ body : List (List Token),
    Separates text.toList (.openBrace :: (body.flatten ++ [.closeBrace])) ∧
    ∀ statement ∈ body, ScriptStatement true statement

theorem statesAll_nil (inside : Bool) : StatesAll inside "" :=
  ⟨[], fun _ => Option.map_id'.symm, List.forall_mem_nil _⟩

theorem StatesAll.cons {inside : Bool} {blanks text others : String}
    (areBlanks : Separates blanks.toList []) (first : States inside text)
    (behind : StatesAll inside others) : StatesAll inside (blanks ++ text ++ "\n" ++ others) := by
  obtain ⟨tokens, separates, statement⟩ := first
  obtain ⟨statements, separatesOthers, each⟩ := behind
  refine ⟨tokens :: statements, ?_, List.forall_mem_cons.mpr ⟨statement, each⟩⟩
  have whole := areBlanks.trans (separates.trans (separates_newline.trans separatesOthers))
  simpa using whole

private theorem StatesAll.enclosed {lines : String} (inside : StatesAll true lines) (depth : Nat) :
    StatesBody (Page.enclosed depth lines) := by
  obtain ⟨statements, separates, each⟩ := inside
  refine ⟨statements, ?_, each⟩
  have whole := separates_openBrace.trans (separates_newline.trans (separates.trans
    ((separates_indentation depth).trans separates_closeBrace)))
  simpa [Page.enclosed] using whole

section Statements

variable {node : Node} {depth : Nat}

private theorem value_closed (value : Shape.Value node)
    (legal : ∀ mention ∈ node.mentions, mention.Legal) (depth : Nat) :
    ∃ text tokens, node.text? depth = some text ∧ IsExpression tokens ∧
      Separates (text ++ ";").toList (tokens ++ [.semicolon]) := by
  obtain ⟨text, tree, isText, spells, readable⟩ := value_expressed value legal depth
  have isSum : Spells .sum text tree := by
    unfold phraseOf at spells
    split at spells
    · exact spells
    · exact spells.sum_of_unary
  obtain ⟨tokens, lexes, derivation, _⟩ := isSum
  refine ⟨text, tokens, isText, ⟨tree, derivation, readable⟩, ?_⟩
  rw [String.toList_append]
  exact lexes.closed rfl separates_semicolon

private theorem result_states (value : Shape.Value node)
    (legal : ∀ mention ∈ node.mentions, mention.Legal) (depth : Nat) :
    ∃ text, node.text? depth = some text ∧ States true ("return " ++ text ++ ";") := by
  obtain ⟨text, tokens, isText, isExpression, separates⟩ := value_closed value legal depth
  have isReturn : Separates "return ".toList [.ofWord "return"] :=
    @separates_keyword "return" (by decide) (List.all_eq_true.mp rfl)
  refine ⟨text, isText, _, ?_, .result isExpression⟩
  simpa using isReturn.trans separates

private theorem separates_declaration {name : String} (isWord : IsWord name) :
    Separates ("var " ++ name ++ " = ").toList [.ofWord "var", .ofWord name, .equals] := by
  have isVar : Separates "var ".toList [.ofWord "var"] :=
    @separates_keyword "var" (by decide) (List.all_eq_true.mp rfl)
  have isName : Separates (name ++ " = ").toList [.ofWord name, .equals] := by
    rw [String.toList_append]
    exact (lexes_name isWord.1 isWord.2).closed rfl separates_equals
  simpa using isVar.trans isName

private theorem binding_states (binding : Shape.Binding node)
    (legal : ∀ mention ∈ node.mentions, mention.Legal) (inside : Bool) (depth : Nat) :
    ∃ text, node.text? depth = some text ∧ States inside text := by
  cases binding with
  | @binding name value place between extent isWord isValue =>
      have parts : (∀ mention ∈ [Mention.declared name], mention.Legal) ∧
          ∀ mention ∈ value.mentions, mention.Legal := List.forall_mem_append.mp legal
      obtain ⟨text, tokens, isText, isExpression, separates⟩ :=
        value_closed isValue parts.2 depth
      refine ⟨"var " ++ (name ++ " = " ++ text) ++ ";", ?_, _, ?_,
        .binding (parts.1 _ List.mem_cons_self) isExpression⟩
      · simp [Node.text?, isText]
      · simpa using (separates_declaration isWord).trans separates

private theorem line_states (line : Shape.Line node) (noType : node.isTypeDeclaration = false)
    (legal : ∀ mention ∈ node.mentions, mention.Legal) (depth : Nat) :
    ∃ text, node.text? depth = some text ∧ States true text := by
  cases line with
  | type => cases noType
  | binding binding => exact binding_states binding legal true depth
  | result value =>
      obtain ⟨text, isText, states⟩ := result_states value legal depth
      exact ⟨_, by simp [Node.text?, isText], states⟩

private theorem lines_state {body : List Node} (lines : ∀ line ∈ body, Shape.Line line)
    (legal : ∀ mention ∈ Node.mentionsAmong body, mention.Legal) (depth : Nat) :
    ∃ text, Node.lines? depth body = some text ∧ StatesAll true text := by
  induction body with
  | nil => exact ⟨"", rfl, statesAll_nil true⟩
  | cons line rest inductionHypothesis =>
      rw [List.forall_mem_cons] at lines
      rw [Node.mentionsAmong, List.forall_mem_append] at legal
      obtain ⟨others, areOthers, behind⟩ := inductionHypothesis lines.2 legal.2
      cases isType : line.isTypeDeclaration with
      | true => exact ⟨others, by simp [Node.lines?, isType, areOthers], behind⟩
      | false =>
          obtain ⟨text, isText, states⟩ := line_states lines.1 isType legal.1 depth
          refine ⟨_, ?_, .cons (separates_indentation depth) states behind⟩
          simp [Node.lines?, isType, isText, areOthers]

private theorem body_states (body : Shape.Body node)
    (legal : ∀ mention ∈ node.mentions, mention.Legal) (depth : Nat) :
    ∃ text, (if node.isBlock then node.text? depth
        else (node.text? (depth + 1)).map (Page.returned depth)) = some text ∧
      StatesBody text := by
  cases body with
  | block lines =>
      obtain ⟨text, isText, states⟩ := lines_state lines legal (depth + 1)
      refine ⟨_, ?_, states.enclosed depth⟩
      simp [Node.isBlock, Node.text?, isText]
  | value value =>
      have noBlock : node.isBlock = false := by
        cases value with
        | leaf leaf => cases leaf <;> rfl
        | call => rfl
        | math => rfl
      obtain ⟨text, isText, states⟩ := result_states value legal (depth + 1)
      have line := StatesAll.cons (separates_indentation (depth + 1)) states (statesAll_nil true)
      refine ⟨_, ?_, line.enclosed depth⟩
      simp [noBlock, isText, Page.returned, String.append_assoc]

/-- Parameters that are names are read as their names. -/
theorem parameters_row {parameters : List Node}
    (leaves : ∀ parameter ∈ parameters, Shape.Leaf parameter)
    (plain : ∀ parameter ∈ parameters, parameter.kind ∉ NodeKind.literals) (depth : Nat)
    (isFirst : Bool) :
    ∃ text, Node.arguments? depth isFirst parameters = some text ∧
      LexesRow isFirst text
        ((parameters.filterMap Node.name?).map fun name => [Token.ofWord name]) := by
  induction parameters generalizing isFirst with
  | nil => exact ⟨"", rfl, lexesRow_nil isFirst⟩
  | cons parameter rest inductionHypothesis =>
      rw [List.forall_mem_cons] at leaves plain
      obtain ⟨others, areOthers, row⟩ := inductionHypothesis leaves.2 plain.2 false
      cases leaves.1 with
      | @name name place isWord =>
          refine ⟨_, ?_, .cons (lexes_name isWord.1 isWord.2) row isFirst⟩
          simp [Node.arguments?, Node.text?, areOthers, rowText]
      | string => exact absurd (show NodeKind.stringLiteral ∈ _ by decide) plain.1
      | number => exact absurd (show NodeKind.numericLiteral ∈ _ by decide) plain.1
      | boolean => exact absurd (show NodeKind.booleanLiteral ∈ _ by decide) plain.1

/-- The name of a function and its parameters between parentheses. -/
theorem separates_header {name row : String} {names : List String} (isName : IsWord name)
    (lexesRow : LexesRow true row (names.map fun name => [Token.ofWord name])) :
    Separates (name ++ "(" ++ row ++ ")").toList
      (.ofWord name :: .opening :: (parameterTokens names ++ [.closing])) := by
  have inside := separates_opening.trans (lexesRow.1.closed rfl separates_closing)
  have whole := (lexes_name isName.1 isName.2).closed rfl inside
  simpa [Token.ofWord, rowTokens, parameterTokens] using whole

/-- The head of a function is its name and a list of parameters. -/
theorem header_written (header : Shape.Header node)
    (plain : ∀ mention ∈ node.header, mention.Plain)
    (legal : ∀ mention ∈ node.header, mention.Legal) (depth : Nat) :
    ∃ text name, ∃ parameters : List String, node.text? depth = some text ∧
      Separates (text ++ if node.isIdentifier then "()" else "").toList
        (.ofWord name :: .opening :: (parameterTokens parameters ++ [.closing])) ∧
      IsBindable name ∧ (∀ parameter ∈ parameters, IsBindable parameter) ∧ parameters.Nodup := by
  cases header with
  | @name name place isWord =>
      have noParameters := (lexes_name isWord.1 isWord.2).closed rfl
        (separates_opening.trans separates_closing)
      refine ⟨name, name, [], rfl, ?_, legal _ List.mem_cons_self, List.forall_mem_nil _,
        List.nodup_nil⟩
      simpa [Node.isIdentifier, Token.ofWord, parameterTokens, separated] using noParameters
  | @parameters name parameters place extent isWord leaves =>
      obtain ⟨distinct, isBindable, areBindable⟩ :
          (parameters.filterMap Node.name?).Nodup ∧ IsBindable name ∧
            ∀ parameter ∈ parameters.filterMap Node.name?, IsBindable parameter := by
        refine ⟨legal _ List.mem_cons_self,
          legal _ (List.mem_cons_of_mem _ List.mem_cons_self), fun parameter isParameter => ?_⟩
        exact legal _ (List.mem_cons_of_mem _ (List.mem_cons_of_mem _
          (List.mem_map_of_mem isParameter)))
      obtain ⟨row, isRow, lexesRow⟩ :=
        parameters_row leaves (plain _ List.mem_cons_self) depth true
      refine ⟨name ++ "(" ++ row ++ ")", name, parameters.filterMap Node.name?, ?_, ?_,
        isBindable, areBindable, distinct⟩
      · simp [Node.text?, ApplicationForm.lead?, isRow]
      · simpa [Node.isIdentifier] using separates_header isWord lexesRow

private theorem function_states {left right : Node} {between extent : Location}
    (header : Shape.Header left) (body : Shape.Body right)
    (plain : ∀ mention ∈ left.header, mention.Plain)
    (legal : ∀ mention ∈
      (Node.statement .function (.assignment left right between) extent).mentions, mention.Legal)
    (depth : Nat) :
    ∃ text, (Node.statement .function (.assignment left right between) extent).text? depth =
      some text ∧ States false text := by
  rw [Node.mentions, List.forall_mem_append] at legal
  obtain ⟨head, name, parameters, isHead, separates, isBindable, areBindable, distinct⟩ :=
    header_written header plain legal.1 depth
  obtain ⟨rest, isRest, statements, separatesRest, each⟩ := body_states body legal.2 depth
  refine ⟨"function " ++ head ++ (if left.isIdentifier then "()" else "") ++ " " ++ rest, ?_, _, ?_,
    .function isBindable areBindable distinct each⟩
  · simp only [Node.text?, isHead, isRest, Option.bind_eq_bind, Option.bind_some]
    rfl
  · have whole := separates_function.trans (separates.trans (separates_blank.trans separatesRest))
    simpa [String.append_assoc] using whole

private theorem paragraph_states (paragraph : Shape.Paragraph node)
    (noType : node.isTypeDeclaration = false)
    (plain : ∀ mention ∈ node.mentions, mention.Plain)
    (legal : ∀ mention ∈ node.mentions, mention.Legal) (depth : Nat) :
    ∃ text, node.text? depth = some text ∧ States false text := by
  cases paragraph with
  | type => cases noType
  | binding binding => exact binding_states binding legal false depth
  | function header body =>
      refine function_states header body (fun mention isHeader => plain mention ?_) legal depth
      exact List.mem_append_left _ isHeader
  | @main name arguments place extent whole isWord leaves =>
      obtain ⟨text, tokens, isText, isExpression, separates⟩ :=
        value_closed (@Shape.Value.call name arguments place extent isWord leaves) legal depth
      refine ⟨text ++ ";", ?_, _, separates, .expression isExpression⟩
      rw [Node.text?, isText]
      rfl

end Statements

private theorem paragraphs_state {body : List Node}
    (paragraphs : ∀ paragraph ∈ body, Shape.Paragraph paragraph)
    (plain : ∀ mention ∈ Node.mentionsAmong body, mention.Plain)
    (legal : ∀ mention ∈ Node.mentionsAmong body, mention.Legal) (depth : Nat) :
    ∃ text, Node.paragraphs? depth body = some text ∧ StatesAll false text := by
  induction body with
  | nil => exact ⟨"", rfl, statesAll_nil false⟩
  | cons paragraph rest inductionHypothesis =>
      rw [List.forall_mem_cons] at paragraphs
      rw [Node.mentionsAmong, List.forall_mem_append] at plain legal
      obtain ⟨others, areOthers, behind⟩ :=
        inductionHypothesis paragraphs.2 plain.2 legal.2
      cases isType : paragraph.isTypeDeclaration with
      | true => exact ⟨others, by simp [Node.paragraphs?, isType, areOthers], behind⟩
      | false =>
          obtain ⟨text, isText, states⟩ :=
            paragraph_states paragraphs.1 isType plain.1 legal.1 depth
          have isNewline : Separates "\n".toList [] := separates_newline
          refine ⟨_, ?_, .cons isNewline states behind⟩
          simp [Node.paragraphs?, isType, isText, areOthers]

/-- The JavaScript of a program is a script in strict mode, if no function has a literal among its
parameters and strict mode allows what the JavaScript mentions. -/
theorem compile_isStrictScript {content : String} {compiled : Compiled}
    (compiles : compile content = .ok compiled)
    (plain : ∀ mention ∈ compiled.tree.mentions, mention.Plain)
    (legal : ∀ mention ∈ compiled.tree.mentions, mention.Legal) :
    IsStrictScript compiled.javascript.toList := by
  obtain ⟨parsed, isJavascript⟩ := compile_eq_ok.mp compiles
  have shape := shape_of_parse parsed
  generalize compiled.tree = tree at *
  cases shape with
  | @program body place paragraphs =>
      obtain ⟨text, isText, statements, separates, each⟩ :=
        paragraphs_state paragraphs plain legal 0
      rw [Node.javascript?_program, isText, Option.map_some] at isJavascript
      refine ⟨statements, each, ?_⟩
      have whole := separates_directive.trans (separates_newline.trans separates)
      have areTokens := whole.lexes.tokens?_eq
      rw [← Option.some.inj isJavascript]
      simpa using areTokens

/-- A function with two parameters that is called by the main declaration. -/
theorem compile_isStrictScript_function :
    ∃ compiled, compile "fun f a b = a + 1\nmain f b \"0\"" = .ok compiled ∧
      compiled.javascript =
        "'use strict';\n\nfunction f(a, b) \x7b\n  return a + 1;\n\x7d\n\nf(b, \"0\");\n" ∧
      IsStrictScript compiled.javascript.toList := by
  have isSeen : (compile "fun f a b = a + 1\nmain f b \"0\"").toOption.map (fun compiled =>
      (compiled.javascript, decide (∀ mention ∈ compiled.tree.mentions, mention.Plain),
        decide (∀ mention ∈ compiled.tree.mentions, mention.Legal))) =
      some ("'use strict';\n\nfunction f(a, b) \x7b\n  return a + 1;\n\x7d\n\nf(b, \"0\");\n", true,
        true) := by
    decide +kernel
  obtain ⟨compiled, compiles, isCompiled⟩ := exists_of_compiled isSeen
  obtain ⟨isText, isCompiled⟩ := Prod.mk.inj isCompiled
  obtain ⟨plain, legal⟩ := Prod.mk.inj isCompiled
  exact ⟨compiled, compiles, isText,
    compile_isStrictScript compiles (of_decide_eq_true plain) (of_decide_eq_true legal)⟩

/-! ### Names that are not free -/

def scriptStart : String := prelude ++ "\n\n"

/-- A text is no script if its first statement cannot start as the text does. -/
theorem Separates.not_isStrictScript {front : List Char} {first : Token} {tokens : List Token}
    (separates : Separates front (first :: tokens))
    (never : ∀ {statement others more}, ScriptStatement false statement →
      statement ++ others ≠ first :: (tokens ++ more)) (rest : List Char) :
    ¬IsStrictScript (scriptStart.toList ++ (front ++ rest)) := by
  have areTokens := separates_directive.trans (separates_newline.trans
    (separates_newline.trans separates)) rest
  simp only [List.append_assoc, List.cons_append, List.nil_append] at areTokens
  have isText : scriptStart.toList ++ (front ++ rest) =
      prelude.toList ++ '\n' :: '\n' :: (front ++ rest) := by
    simp [scriptStart]
  rw [isText]
  intro isScript
  obtain ⟨statements, _, isWhole⟩ := id isScript
  rw [areTokens, Option.map_eq_some_iff] at isWhole
  obtain ⟨more, isMore, _⟩ := isWhole
  rw [isMore, Option.map_some] at areTokens
  obtain ⟨statement, others, isStatement, same⟩ := isScript.exists_first areTokens
  exact never isStatement same

section Names

variable {name word : String} (isName : IsWord name) (rest : List Char)

include isName

/-- A declared name has to be one that may be declared. -/
theorem not_isStrictScript_declared (noName : ¬IsBindable name) :
    ¬IsStrictScript (scriptStart.toList ++ (("var " ++ name ++ " = ").toList ++ rest)) := by
  refine (separates_declaration isName).not_isStrictScript (fun isStatement same => ?_) rest
  obtain ⟨declared, value, isBindable, _, behind⟩ := isStatement.of_var same
  have isSame := Token.word.inj (List.cons.inj behind).1
  exact noName (String.toList_inj.mp isSame ▸ isBindable)

/-- A name that is used has to be no reserved word. -/
theorem not_isStrictScript_used (isWord : IsWord word) (isReserved : word ∈ reservedWords)
    (noValue : word ∉ ["true", "false"]) :
    ¬IsStrictScript
      (scriptStart.toList ++ (("var " ++ name ++ " = " ++ word ++ ";").toList ++ rest)) := by
  have separates := (separates_declaration isName).trans
    ((lexes_name isWord.1 isWord.2).closed rfl separates_semicolon)
  rw [← String.toList_singleton, ← String.toList_append, ← String.toList_append,
    ← String.append_assoc] at separates
  refine separates.not_isStrictScript (fun isStatement same => ?_) rest
  obtain ⟨declared, value, _, isExpression, behind⟩ := isStatement.of_var same
  have isValue := (List.cons.inj (List.cons.inj behind).2).2
  exact isExpression.append_ne isReserved noValue isValue.symm

/-- The parameters of a function have to differ. -/
theorem not_isStrictScript_repeated {names : List String} {row : String}
    (lexesRow : LexesRow true row (names.map fun name => [.ofWord name]))
    (repeated : ¬names.Nodup) :
    ¬IsStrictScript
      (scriptStart.toList ++ (("function " ++ name ++ "(" ++ row ++ ")").toList ++ rest)) := by
  have separates := separates_function.trans (separates_header isName lexesRow)
  rw [← String.toList_append, ← String.append_assoc, ← String.append_assoc, ← String.append_assoc]
    at separates
  refine separates.not_isStrictScript (fun isStatement same => ?_) rest
  obtain ⟨other, parameters, more, _, _, distinct, behind⟩ := isStatement.of_function same
  have areNames : parameterTokens names ++ [.closing] ++ _ = _ :=
    (List.cons.inj (List.cons.inj behind).2).2
  rw [List.append_assoc] at areNames
  exact repeated (eq_of_parameterTokens areNames ▸ distinct)

end Names

/-- Whether a source compiles, has no literal among parameters, and gives no script in strict
mode. -/
def BreaksStrictMode (content : String) : Prop :=
  ∃ compiled, compile content = .ok compiled ∧
    (∀ mention ∈ compiled.tree.mentions, mention.Plain) ∧
    ¬IsStrictScript compiled.javascript.toList

private theorem BreaksStrictMode.of_text {content : String} {text : List Char}
    (seen : (compile content).toOption.map (fun compiled => (compiled.javascript.toList,
      decide (∀ mention ∈ compiled.tree.mentions, mention.Plain))) = some (text, true))
    (noScript : ¬IsStrictScript text) : BreaksStrictMode content := by
  obtain ⟨compiled, compiles, isCompiled⟩ := exists_of_compiled seen
  obtain ⟨rfl, plain⟩ := Prod.mk.inj isCompiled
  exact ⟨compiled, compiles, of_decide_eq_true plain, noScript⟩

/-- Names are emitted as they are written, whatever they are: a reserved word that is declared,
`eval` likewise, a reserved word that is used, and a parameter that stands twice. -/
theorem breaksStrictMode_of_names :
    BreaksStrictMode "let if = x" ∧ BreaksStrictMode "let eval = x" ∧
      BreaksStrictMode "let x = if" ∧ BreaksStrictMode "fun f a a = a" := by
  have isIf : IsWord "if" := ⟨by decide, List.all_eq_true.mp rfl⟩
  have isEval : IsWord "eval" := ⟨by decide, List.all_eq_true.mp rfl⟩
  have isLetter : IsWord "x" ∧ IsWord "f" ∧ IsWord "a" :=
    ⟨⟨by decide, List.all_eq_true.mp rfl⟩, ⟨by decide, List.all_eq_true.mp rfl⟩,
      ⟨by decide, List.all_eq_true.mp rfl⟩⟩
  have isReserved : "if" ∈ reservedWords := by decide +kernel
  have isDeclared := not_isStrictScript_declared isIf "x;\n".toList
    fun isBindable => isBindable.1 isReserved
  have isSetAside := not_isStrictScript_declared isEval "x;\n".toList
    fun isBindable => isBindable.2 List.mem_cons_self
  have isUsed := not_isStrictScript_used isLetter.1 "\n".toList isIf isReserved (by decide)
  have isParameter := lexes_name isLetter.2.2.1 isLetter.2.2.2
  have row : LexesRow true "a, a" (["a", "a"].map fun name => [.ofWord name]) :=
    .cons isParameter (.cons isParameter (lexesRow_nil false) false) true
  have isRepeated := not_isStrictScript_repeated isLetter.2.1
    " \x7b\n  return a;\n\x7d\n".toList row (by decide)
  exact ⟨.of_text (by decide +kernel) isDeclared, .of_text (by decide +kernel) isSetAside,
    .of_text (by decide +kernel) isUsed, .of_text (by decide +kernel) isRepeated⟩

end Javascript

end SprigCompiler
