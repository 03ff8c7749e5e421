import SprigCompiler.Compile
import SprigCompiler.Proofs.Javascript.Locations
import SprigCompiler.Proofs.Javascript.Pages
import SprigCompiler.Proofs.Parser.Seams
import SprigCompiler.Proofs.Parser.Texts
import SprigCompiler.Proofs.Token.Lines

/-!
Compiling one text below another.

Outside of strings a line break lets nothing through but the entry point: the statements of both
texts make one program, and its JavaScript is that of the first text with the statements of the
second behind it.
-/

namespace SprigCompiler

open Movable (move)

variable {nodes others : List Node} {place : Location}

def Node.body : Node → List Node
  | program body _ => body
  | _ => []

private theorem Node.paragraphs?_eq (depth : Nat) (nodes : List Node) :
    paragraphs? depth nodes = (emitParagraphs nodes ⟨"", depth⟩).map Page.text := by
  have written : Page.text ∘ Page.write ⟨"", depth⟩ = id := by
    funext text
    simp [Page.write]
  rw [emitParagraphs_eq, Option.map_map, written, Option.map_id]
  rfl

private theorem Node.paragraphs?_move (shift : Shift) (depth : Nat) (nodes : List Node) :
    paragraphs? depth (move shift nodes) = paragraphs? depth nodes := by
  rw [paragraphs?_eq, paragraphs?_eq, ← Shift.relocatedAll_move, emitParagraphs_relocated]

private theorem Node.paragraphs?_append (depth : Nat) (nodes others : List Node) :
    paragraphs? depth (nodes ++ others) =
      (paragraphs? depth nodes).bind fun text => (paragraphs? depth others).map (text ++ ·) := by
  induction nodes with
  | nil => simp [paragraphs?]
  | cons node rest inductionHypothesis =>
      rw [List.cons_append, paragraphs?, paragraphs?, inductionHypothesis]
      split
      · rfl
      · cases text? depth node with
        | none => rfl
        | some text =>
            cases paragraphs? depth rest with
            | none => rfl
            | some texts => cases paragraphs? depth others <;> simp [String.append_assoc]

theorem Node.javascript?_program (body : List Node) (place : Location) :
    (Node.program body place).javascript? =
      (paragraphs? 0 body).map (prelude ++ "\n" ++ ·) := by
  rw [javascript?_eq, text?]
  cases paragraphs? 0 body <;> rfl

theorem compile_eq_ok {content : String} {compiled : Compiled} :
    compile content = .ok compiled ↔
      parse content = .ok compiled.tree ∧ compiled.tree.javascript? = some compiled.javascript := by
  unfold compile
  cases parse content with
  | error error => simp
  | ok tree =>
      obtain ⟨found, text⟩ := compiled
      cases isText : tree.javascript? with
      | none =>
          simp only [isText, reduceCtorEq, false_iff, not_and]
          rintro same
          cases same
          rw [isText]
          exact Option.some_ne_none _ |>.symm
      | some javascript =>
          simp only [isText, Except.ok.injEq, Compiled.mk.injEq]
          constructor
          · rintro ⟨rfl, rfl⟩
            exact ⟨rfl, isText⟩
          · rintro ⟨rfl, same⟩
            rw [isText] at same
            exact ⟨rfl, Option.some.inj same⟩

private theorem compile_of_parse_error {content : String} {error : ParseError}
    (failed : parse content = .error error) : compile content = .error (.parse error) := by
  unfold compile
  rw [failed]

/-- A text that is a program is made of tokens that the parser accepts. -/
theorem parse_eq_ok {content : String} {tree : Node} (parsed : parse content = .ok tree) :
    ∃ tokens body, Token.ofText? true content = .ok tokens ∧
      tree = .program body (Source.ofString content).extent ∧
      (Parse.program (.ofTokens (.ofString content) tokens)).1 =
        .ok (.program body (Source.ofString content).extent) := by
  cases read : Token.ofText? true content with
  | error error =>
      rw [parse_eq_of_stray read] at parsed
      cases parsed
  | ok tokens =>
      rw [parse_eq_of_tokens read] at parsed
      obtain ⟨body, _, rfl, _, _⟩ := Parse.program_eq_ok parsed
      exact ⟨tokens, body, rfl, rfl, parsed⟩

/-- A text on the line below another one, both of which compile: unless both declare an entry point,
the whole compiles to the statements of the first and those of the second, moved down.  Otherwise it
fails where the second one declares its own. -/
theorem compile_below {text other : String} {first second : Compiled}
    (compiles : compile text = .ok first) (otherCompiles : compile other = .ok second)
    (closed : ¬EndsInString text) :
    ∃ tail, first.tree = .program first.tree.body (Source.ofString text).extent ∧
      second.tree = .program second.tree.body (Source.ofString other).extent ∧
      second.javascript = prelude ++ "\n" ++ tail ∧
      ((first.tree.body.any Node.isMain && second.tree.body.any Node.isMain) = false →
        compile (text ++ "\n" ++ other) =
          .ok ⟨.program (first.tree.body ++ move (.below text) second.tree.body)
              (Source.ofString (text ++ "\n" ++ other)).extent, first.javascript ++ tail⟩) ∧
      ∀ main ∈ second.tree.body, main.isMain = true → first.tree.body.any Node.isMain = true →
        compile (text ++ "\n" ++ other) =
          .error (.parse (.duplicateEntry (move (.below text) main.location).position)) := by
  obtain ⟨parsed, written⟩ := compile_eq_ok.mp compiles
  obtain ⟨otherParsed, otherWritten⟩ := compile_eq_ok.mp otherCompiles
  obtain ⟨tokens, body, read, isTree, ran⟩ := parse_eq_ok parsed
  obtain ⟨others, otherBody, otherRead, isOther, otherRan⟩ := parse_eq_ok otherParsed
  have isBody : first.tree.body = body := congrArg Node.body isTree
  have isOtherBody : second.tree.body = otherBody := congrArg Node.body isOther
  rw [isTree, Node.javascript?_program] at written
  rw [isOther, Node.javascript?_program] at otherWritten
  obtain ⟨front, isFront, isFirst⟩ := Option.map_eq_some_iff.mp written
  obtain ⟨tail, isTail, isSecond⟩ := Option.map_eq_some_iff.mp otherWritten
  have readBoth : Token.ofText? true (text ++ "\n" ++ other) =
      .ok (tokens ++ move (.below text) others) := by
    rw [ofText?_below read closed, otherRead]
    rfl
  obtain ⟨both, twice⟩ := Parse.program_append (.below text)
    (.ofString (text ++ "\n" ++ other)) ran otherRan
  rw [← parse_eq_of_tokens readBoth] at both twice
  rw [isBody, isOtherBody]
  refine ⟨tail, isTree, isOther, isSecond.symm, ?_, ?_⟩
  · intro notBoth
    refine compile_eq_ok.mpr ⟨both notBoth, ?_⟩
    rw [Node.javascript?_program, Node.paragraphs?_append, Node.paragraphs?_move, isFront, isTail,
      ← isFirst]
    simp [String.append_assoc]
  · intro main isMember isMain hasMain
    exact compile_of_parse_error (twice main isMember isMain hasMain)

theorem exists_of_compiled {Result : Type} {content : String} {view : Compiled → Result}
    {result : Result} (seen : (compile content).toOption.map view = some result) :
    ∃ compiled, compile content = .ok compiled ∧ view compiled = result := by
  cases compiles : compile content with
  | error error =>
      rw [compiles] at seen
      cases seen
  | ok compiled =>
      rw [compiles] at seen
      exact ⟨compiled, rfl, Option.some.inj seen⟩

/-- A declaration below an entry point. -/
theorem compile_below_entry :
    ∃ compiled, compile ("main f" ++ "\n" ++ "let x = y") = .ok compiled ∧
      compiled.javascript = "'use strict';\n\nf();\n\nvar x = y;\n" := by
  have closed : ¬EndsInString "main f" := by
    have isLast : (pieces "main f".toList).getLast? = some (.word, ['f']) := by decide +kernel
    rintro ⟨piece, isPiece, isString, _⟩
    rw [isLast] at isPiece
    cases isPiece
    cases isString
  have isFirst : (compile "main f").toOption.map Compiled.javascript =
      some "'use strict';\n\nf();\n" := by decide +kernel
  have isSecond : (compile "let x = y").toOption.map
      (fun compiled => (compiled.javascript, compiled.tree.body.any Node.isMain)) =
        some ("'use strict';\n\nvar x = y;\n", false) := by decide +kernel
  obtain ⟨first, compiles, isText⟩ := exists_of_compiled isFirst
  obtain ⟨second, otherCompiles, isOther⟩ := exists_of_compiled isSecond
  obtain ⟨isOtherText, noMain⟩ := Prod.mk.inj isOther
  obtain ⟨tail, _, _, isTail, both, _⟩ := compile_below compiles otherCompiles closed
  refine ⟨_, both (by rw [noMain, Bool.and_false]), ?_⟩
  have behind : "\nvar x = y;\n" = tail := by
    have whole : prelude ++ "\n" ++ "\nvar x = y;\n" = prelude ++ "\n" ++ tail := by
      rw [← isTail, isOtherText]
      decide
    exact (String.append_right_inj _).mp whole
  change first.javascript ++ tail = _
  rw [isText, ← behind]
  decide

end SprigCompiler
