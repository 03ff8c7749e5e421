import SprigCompiler.Compile
import SprigCompiler.Proofs.Guarded.Parsing
import SprigCompiler.Proofs.Javascript.Pages

/-!
Guarded compilation.

Emission is guarded as it stands: it gives nothing for a function that wraps no assignment, and
nothing when a block is closed that was not opened.  Neither happens below a node that was built by
constructors.  Together with guarded parsing this means that compilation and the rendering of its
errors never leave the domain of an operation, whatever the text is.
-/

namespace SprigCompiler

namespace Node

variable {node : Node} {nodes : List Node} {depth : Nat}

def Writable (node : Node) : Prop := ∀ depth, ∃ text, node.text? depth = some text

private theorem exists_paragraphs (writable : ∀ node ∈ nodes, node.Writable) (depth : Nat) :
    ∃ text, paragraphs? depth nodes = some text := by
  induction nodes with
  | nil => exact ⟨_, rfl⟩
  | cons node rest inductionHypothesis =>
      obtain ⟨isWritable, others⟩ := List.forall_mem_cons.mp writable
      obtain ⟨behind, isBehind⟩ := inductionHypothesis others
      obtain ⟨text, isText⟩ := isWritable depth
      rw [paragraphs?, isText, isBehind]
      split <;> exact ⟨_, rfl⟩

private theorem exists_lines (writable : ∀ node ∈ nodes, node.Writable) (depth : Nat) :
    ∃ text, lines? depth nodes = some text := by
  induction nodes with
  | nil => exact ⟨_, rfl⟩
  | cons node rest inductionHypothesis =>
      obtain ⟨isWritable, others⟩ := List.forall_mem_cons.mp writable
      obtain ⟨behind, isBehind⟩ := inductionHypothesis others
      obtain ⟨text, isText⟩ := isWritable depth
      rw [lines?, isText, isBehind]
      split <;> exact ⟨_, rfl⟩

private theorem exists_arguments (writable : ∀ node ∈ nodes, node.Writable) (depth : Nat)
    (isFirst : Bool) : ∃ text, arguments? depth isFirst nodes = some text := by
  induction nodes generalizing isFirst with
  | nil => exact ⟨_, rfl⟩
  | cons node rest inductionHypothesis =>
      obtain ⟨isWritable, others⟩ := List.forall_mem_cons.mp writable
      obtain ⟨behind, isBehind⟩ := inductionHypothesis others false
      obtain ⟨text, isText⟩ := isWritable depth
      rw [arguments?, isText, isBehind]
      exact ⟨_, rfl⟩

private theorem Writable.sides {left right : Node} {between : Location}
    (writable : (assignment left right between).Writable) : left.Writable ∧ right.Writable := by
  have both (depth : Nat) : ∃ first second, left.text? depth = some first ∧
      right.text? depth = some second := by
    obtain ⟨text, isText⟩ := writable depth
    rw [text?] at isText
    obtain ⟨first, isFirst, isText⟩ := Option.bind_eq_some_iff.mp isText
    obtain ⟨second, isSecond, _⟩ := Option.bind_eq_some_iff.mp isText
    exact ⟨first, second, isFirst, isSecond⟩
  constructor
  · intro depth
    obtain ⟨first, _, isFirst, _⟩ := both depth
    exact ⟨first, isFirst⟩
  · intro depth
    obtain ⟨_, second, _, isSecond⟩ := both depth
    exact ⟨second, isSecond⟩

/-- The table lets a function wrap nothing but an assignment. -/
theorem Allowed.assignment_of_function {value : Node} {place : Location}
    (allowed : (statement .function value place).Allowed) :
    ∃ left right between, value = assignment left right between := by
  have isRow : (⟨.value, [.assignmentExpression]⟩ : TableRow) ∈
      NodeKind.functionDeclaration.table := List.mem_cons_self
  have isListed := allowed.kind_mem isRow (List.mem_singleton.mpr (rfl : value = value))
  exact exists_assignment_of_kind (List.mem_singleton.mp isListed)

/-- Every node that the table allows throughout has a text. -/
theorem AllowedThroughout.writable (allowed : node.AllowedThroughout) : node.Writable := by
  induction node using children_induction with
  | parent node inductionHypothesis =>
      obtain ⟨isAllowed, parts⟩ := (allowedThroughout_iff node).mp allowed
      have writable : ∀ child ∈ node.children, child.Writable :=
        fun child isChild => inductionHypothesis child isChild (parts child isChild)
      intro depth
      cases node with
      | program body place =>
          have areWritable : ∀ child ∈ body, child.Writable := writable
          obtain ⟨text, isText⟩ := exists_paragraphs areWritable depth
          exact ⟨_, by rw [text?, isText]; rfl⟩
      | block body place =>
          have areWritable : ∀ child ∈ body, child.Writable := writable
          obtain ⟨text, isText⟩ := exists_lines areWritable (depth + 1)
          exact ⟨_, by rw [text?, isText]; rfl⟩
      | statement form value place =>
          have isValue := writable value (List.mem_singleton.mpr rfl)
          obtain ⟨text, isText⟩ := isValue depth
          cases form with
          | function =>
              obtain ⟨left, right, between, rfl⟩ := isAllowed.assignment_of_function
              obtain ⟨isLeft, isRight⟩ := isValue.sides
              obtain ⟨header, isHeader⟩ := isLeft depth
              obtain ⟨body, isBody⟩ := isRight depth
              obtain ⟨result, isResult⟩ := isRight (depth + 1)
              rw [text?, isHeader, isBody, isResult]
              split <;> exact ⟨_, rfl⟩
          | type => exact ⟨_, by rw [text?]⟩
          | _ => exact ⟨_, by rw [text?, isText]; rfl⟩
      | application form head arguments place =>
          obtain ⟨isHead, areArguments⟩ := List.forall_mem_cons.mp writable
          obtain ⟨name, isName⟩ := isHead depth
          obtain ⟨text, isText⟩ := exists_arguments areArguments depth true
          rw [text?, isName, isText]
          cases form <;> exact ⟨_, rfl⟩
      | assignment left right place =>
          obtain ⟨isLeft, others⟩ := List.forall_mem_cons.mp writable
          obtain ⟨first, isFirst⟩ := isLeft depth
          obtain ⟨second, isSecond⟩ := others right (List.mem_singleton.mpr rfl) depth
          exact ⟨_, by rw [text?, isFirst, isSecond]; rfl⟩
      | math operator left right place =>
          obtain ⟨isLeft, others⟩ := List.forall_mem_cons.mp writable
          obtain ⟨first, isFirst⟩ := isLeft depth
          obtain ⟨second, isSecond⟩ := others right (List.mem_singleton.mpr rfl) depth
          exact ⟨_, by rw [text?, isFirst, isSecond]; rfl⟩
      | union members place => exact ⟨_, by rw [text?]⟩
      | identifier name place => exact ⟨_, by rw [text?]⟩
      | string value place => exact ⟨_, by rw [text?]⟩
      | number value place => exact ⟨_, by rw [text?]⟩
      | boolean value place => exact ⟨_, by rw [text?]⟩

end Node

namespace Guarded

def parse? (content : String) : Option (Except ParseError Node) := do
  match ← tokens? true content.toList with
  | .error error => some (.error (.lexical error))
  | .ok tokens => (program (.ofTokens (.ofString content) tokens)).map Prod.fst

def compile? (content : String) : Option (Except ParseError Compiled) := do
  match ← parse? content with
  | .error error => some (.error error)
  | .ok tree => do return .ok ⟨tree, ← tree.javascript?⟩

def renderError? (color : Bool) (content : String) (error : ParseError) : Option String := do
  let header := Emphasis.alarm.paint color "ERROR:" ++ " " ++ error.message ++ "\n"
  match ← line? content.toList error.position.line with
  | some line => some (header ++ Diagnostic.excerpt color error.position line)
  | none => some header

private theorem parse?_eq (content : String) : parse? content = some (parse content) := by
  unfold parse?
  rw [tokens?_eq]
  cases read : Token.ofText? true content with
  | error error =>
      rw [parse_eq_of_stray read]
      rfl
  | ok tokens =>
      rw [parse_eq_of_tokens read]
      change (program (.ofTokens (.ofString content) tokens)).map Prod.fst = _
      rw [keeps_program.run]
      rfl

/-- Compiling a text gives the compiled program or the reason why it is none. -/
theorem exists_compile?_eq (content : String) :
    ∃ result, compile? content = some result ∧
      compile content = result.mapError CompileError.parse := by
  unfold compile? compile
  rw [parse?_eq]
  cases parsed : parse content with
  | error error => exact ⟨.error error, rfl, rfl⟩
  | ok tree =>
      obtain ⟨text, isText⟩ := (Parse.parse_obtainable parsed).allowed.writable 0
      rw [← Node.javascript?_eq] at isText
      refine ⟨.ok ⟨tree, text⟩, ?_, ?_⟩
      · change (do return Except.ok (Compiled.mk tree (← tree.javascript?))) = _
        rw [isText]
        rfl
      · simp only [isText]
        rfl

private theorem renderError?_eq (color : Bool) (content : String) (error : ParseError) :
    renderError? color content error = some (renderError color content error) := by
  unfold renderError? renderError Diagnostic.render
  rw [line?_eq]
  dsimp only [Option.bind_eq_bind, Option.bind_some]
  cases (Source.ofString content).line? error.position.line with
  | none => rw [String.append_empty]
  | some line => rfl

private theorem runAll?_eq (calls : List Parse.Call) (parser : Parser) :
    runAll? calls parser = some (Parse.Call.runAll calls parser) := by
  induction calls generalizing parser with
  | nil => rfl
  | cons call calls inductionHypothesis =>
      rw [runAll?, (keeps_run call).run]
      change (runAll? calls (call.run parser).2).bind _ = _
      rw [inductionHypothesis]
      rfl

/-- No text, no list of tokens and no node makes an operation leave its domain: every text is
compiled or refused with an error, every error can be rendered, a parser before any tokens answers
every sequence of calls, and every node that constructors build has a text. -/
theorem compile?_isDefined :
    (∀ content : String, ∃ result, compile? content = some result ∧
      compile content = result.mapError CompileError.parse) ∧
    (∀ (color : Bool) (content : String) (error : ParseError),
      renderError? color content error = some (renderError color content error)) ∧
    (∀ (content : String) (tokens : List Token) (calls : List Parse.Call),
      runAll? calls (.ofTokens (.ofString content) tokens) =
        some (Parse.Call.runAll calls (.ofTokens (.ofString content) tokens))) ∧
    ∀ node : Node, node.Obtainable → ∀ page : Page,
      ∃ text, node.emit page = some (page.write text) := by
  refine ⟨exists_compile?_eq, renderError?_eq, fun _ _ calls => runAll?_eq calls _, ?_⟩
  intro node obtainable page
  obtain ⟨text, isText⟩ := obtainable.allowed.writable page.depth
  exact ⟨text, by rw [Node.emit_eq, isText, Option.map_some]⟩

/-- A function inside three blocks. -/
theorem compile?_isDefined_function :
    let place : Location := ⟨1, 0, 0, 1⟩
    let sides : Node := .assignment (.identifier "f" place) (.boolean true place) place
    let function : Node := .statement .function sides place
    function.Obtainable ∧ ∃ text, function.emit ⟨"", 3⟩ = some (Page.write ⟨"", 3⟩ text) := by
  intro place sides function
  have isMade : sides.checked = .ok sides := rfl
  have isSides : sides.Obtainable :=
    .assignment (.identifier "f" place) (.boolean true place) isMade
  have isDeclared : function.checked = .ok function := rfl
  have isFunction : function.Obtainable := .statement isSides isDeclared
  exact ⟨isFunction, compile?_isDefined.2.2.2 function isFunction ⟨"", 3⟩⟩

end Guarded

end SprigCompiler
