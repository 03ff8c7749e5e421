import SprigCompiler.Proofs.Guarded.Compilation
import SprigCompiler.Proofs.Javascript.Indentation
import SprigCompiler.Proofs.Parser.EntryPoint

/-!
Emission inside blocks.

Line breaks of JavaScript come from the layout alone, provided that no name runs over the end of a
line.  So what a node adds inside blocks is what it adds outside of them, with the blanks of the
blocks put in.
-/

namespace SprigCompiler

namespace Node

variable {node child : Node} {nodes : List Node}

def HasSingleLineNames (node : Node) : Prop :=
  ∀ row ∈ node.preorder 0, ∀ name ∈ row.2.name?, '\n' ∉ name.toList

private theorem hasSingleLineNames_iff (node : Node) :
    node.HasSingleLineNames ↔
      (∀ name ∈ node.name?, '\n' ∉ name.toList) ∧
        ∀ child ∈ node.children, child.HasSingleLineNames := by
  unfold HasSingleLineNames
  rw [preorder_eq, List.forall_mem_cons]
  exact and_congr_right' (@forall_mem_preorderAll
    (fun node => ∀ name ∈ node.name?, '\n' ∉ name.toList) (0 + 1) node.children)

/-- Whether a node adds inside more blocks what it adds inside fewer, with their blanks put in. -/
def Nests (node : Node) : Prop :=
  ∀ outer depth, node.text? (depth + outer) = (node.text? depth).map (Page.nested outer)

private theorem lines?_nested (nests : ∀ node ∈ nodes, node.Nests) (outer depth : Nat) :
    (lines? (depth + outer) nodes).map (· ++ Page.indentation outer) =
      (lines? depth nodes).map fun lines =>
        Page.indentation outer ++ Page.nested outer lines := by
  induction nodes with
  | nil =>
      simp only [lines?, Option.map_some, String.empty_append]
      rw [Page.nested_of_single (by decide), String.append_empty]
  | cons node rest inductionHypothesis =>
      obtain ⟨first, others⟩ := List.forall_mem_cons.mp nests
      have behind := inductionHypothesis others
      rw [lines?, lines?]
      split
      · exact behind
      · rw [first outer depth]
        cases node.text? depth with
        | none => rfl
        | some text =>
            cases isRest : lines? depth rest with
            | none =>
                rw [isRest, Option.map_none, Option.map_eq_none_iff] at behind
                rw [behind]
                rfl
            | some lines =>
                rw [isRest, Option.map_some] at behind
                obtain ⟨inner, isInner, same⟩ := Option.map_eq_some_iff.mp behind
                simp only [isInner, Option.map_some, Option.bind_eq_bind, Option.bind_some,
                  pure, Page.indentation_add, Page.nested_append, Page.nested_newline,
                  Page.nested_indentation, String.append_assoc, same]

private theorem arguments?_nested (nests : ∀ node ∈ nodes, node.Nests) (outer depth : Nat)
    (isFirst : Bool) :
    arguments? (depth + outer) isFirst nodes =
      (arguments? depth isFirst nodes).map (Page.nested outer) := by
  induction nodes generalizing isFirst with
  | nil =>
      rw [arguments?, arguments?, Option.map_some, Page.nested_of_single (by decide)]
  | cons node rest inductionHypothesis =>
      obtain ⟨first, others⟩ := List.forall_mem_cons.mp nests
      have separator : Page.nested outer (if isFirst then "" else ", ") =
          if isFirst then "" else ", " :=
        Page.nested_of_single (by cases isFirst <;> decide)
      rw [arguments?, arguments?, first, inductionHypothesis others]
      cases node.text? depth with
      | none => rfl
      | some text =>
          cases arguments? depth false rest with
          | none => rfl
          | some more =>
              simp only [Option.map_some, Option.bind_eq_bind, Option.bind_some, pure,
                Page.nested_append, separator]

/-- The lines of a block move with the braces around them. -/
theorem block_nests {body : List Node} {place : Location} (nests : ∀ node ∈ body, node.Nests) :
    (block body place).Nests := by
  intro outer depth
  have moved := lines?_nested nests outer (depth + 1)
  rw [text?, text?, Nat.add_right_comm]
  cases isBody : lines? (depth + 1) body with
  | none =>
      rw [isBody, Option.map_none, Option.map_eq_none_iff] at moved
      rw [moved]
      rfl
  | some lines =>
      rw [isBody, Option.map_some] at moved
      obtain ⟨inner, isInner, same⟩ := Option.map_eq_some_iff.mp moved
      rw [isInner]
      exact congrArg some (Page.enclosed_nested same)

private theorem function_nests {left right : Node} {between place : Location} (isLeft : left.Nests)
    (isRight : right.Nests) :
    (statement .function (assignment left right between) place).Nests := by
  intro outer depth
  have body : (if right.isBlock then text? (depth + outer) right
      else (text? (depth + outer + 1) right).map (Page.returned (depth + outer))) =
      (if right.isBlock then text? depth right
        else (text? (depth + 1) right).map (Page.returned depth)).map (Page.nested outer) := by
    split
    · exact isRight outer depth
    · rw [Nat.add_right_comm, isRight, Option.map_map, Option.map_map]
      simp only [Function.comp_def, Page.returned_nested]
  have parameters : Page.nested outer (if left.isIdentifier then "()" else "") =
      if left.isIdentifier then "()" else "" :=
    Page.nested_of_single (by split <;> decide)
  rw [text?, text?, isLeft, body]
  cases text? depth left with
  | none => rfl
  | some header =>
      cases (if right.isBlock then text? depth right
        else (text? (depth + 1) right).map (Page.returned depth)) with
      | none => rfl
      | some written =>
          simp (disch := decide) only [Option.map_some, Option.bind_eq_bind, Option.bind_some,
            pure, Page.nested_append, parameters, Page.nested_of_single]

private theorem application_nests {form : ApplicationForm} {head : Node} {arguments : List Node}
    {place : Location} (isHead : head.Nests) (areArguments : ∀ node ∈ arguments, node.Nests) :
    (application form head arguments place).Nests := by
  intro outer depth
  have leads : ∀ lead ∈ form.lead?, Page.nested outer lead = lead := by
    intro lead isLead
    refine Page.nested_of_single ?_
    cases form <;> cases isLead <;> decide
  rw [text?, text?]
  cases isLead : form.lead? with
  | none => exact congrArg some (Page.nested_of_single (by decide)).symm
  | some lead =>
      have same := leads lead isLead
      dsimp only
      rw [isHead, arguments?_nested areArguments]
      cases text? depth head with
      | none => rfl
      | some name =>
          cases arguments? depth true arguments with
          | none => rfl
          | some others =>
              simp (disch := decide) only [Option.map_some, Option.bind_eq_bind,
                Option.bind_some, pure, Page.nested_append, same, Page.nested_of_single]

private theorem nested_inParentheses (depth : Nat) (needed : Bool) (text : String) :
    Page.nested depth (inParentheses needed text) =
      inParentheses needed (Page.nested depth text) := by
  unfold inParentheses
  split
  · simp (disch := decide) only [Page.nested_append, Page.nested_of_single]
  · rfl

private theorem math_nests {operator : MathOperator} {left right : Node} {place : Location}
    (isLeft : left.Nests) (isRight : right.Nests) : (math operator left right place).Nests := by
  intro outer depth
  have sign : Page.nested outer operator.sign = operator.sign :=
    Page.nested_of_single (by cases operator <;> decide)
  rw [text?, text?, isLeft, isRight]
  cases text? depth left with
  | none => rfl
  | some first =>
      cases text? depth right with
      | none => rfl
      | some second =>
          simp (disch := decide) only [Option.map_some, Option.bind_eq_bind, Option.bind_some,
            pure, Page.nested_append, nested_inParentheses, sign, Page.nested_of_single]

private theorem assignment_nests {left right : Node} {place : Location} (isLeft : left.Nests)
    (isRight : right.Nests) : (assignment left right place).Nests := by
  intro outer depth
  rw [text?, text?, isLeft, isRight]
  cases text? depth left with
  | none => rfl
  | some first =>
      cases text? depth right with
      | none => rfl
      | some second =>
          simp (disch := decide) only [Option.map_some, Option.bind_eq_bind, Option.bind_some,
            pure, Page.nested_append, Page.nested_of_single]

/-- A statement that is no function stands on the line of its value. -/
theorem statement_nests {form : StatementForm} {value : Node} {place : Location}
    (noFunction : form ≠ .function) (isValue : value.Nests) :
    (statement form value place).Nests := by
  intro outer depth
  cases form with
  | function => exact absurd rfl noFunction
  | type =>
      rw [text?, text?]
      exact congrArg some (Page.nested_of_single (by decide)).symm
  | _ =>
      rw [text?, text?, isValue]
      cases text? depth value with
      | none => rfl
      | some text =>
          simp (disch := decide) only [Option.map_some, Option.bind_eq_bind, Option.bind_some,
            pure, Page.nested_append, Page.nested_of_single]

/-- A text on one line is the same inside any number of blocks. -/
theorem nests_of_single {text : String} (single : '\n' ∉ text.toList)
    (isText : ∀ depth, node.text? depth = some text) : node.Nests := by
  intro outer depth
  rw [isText, isText, Option.map_some, Page.nested_of_single single]

/-- A node that is no program moves with the blocks around it, and so do its children. -/
theorem AllowedThroughout.nests (allowed : node.AllowedThroughout)
    (single : node.HasSingleLineNames) (noProgram : node.kind ≠ .program) :
    node.Nests ∧ ∀ child ∈ node.children, child.Nests := by
  induction node using children_induction with
  | parent node inductionHypothesis =>
      obtain ⟨isAllowed, parts⟩ := (allowedThroughout_iff node).mp allowed
      obtain ⟨isSingle, singles⟩ := (hasSingleLineNames_iff node).mp single
      have both : ∀ child ∈ node.children, child.Nests ∧ ∀ part ∈ child.children, part.Nests := by
        intro child isChild
        refine inductionHypothesis child isChild (parts child isChild) (singles child isChild) ?_
        obtain ⟨row, isRow, stands⟩ := exists_row_of_mem_children isChild
        have refusesProgram := (not_mem_kinds_of_mem_table noProgram row isRow).1
        exact fun isProgram => refusesProgram (isProgram ▸ isAllowed.kind_mem isRow stands)
      have nests : ∀ child ∈ node.children, child.Nests := fun child isChild =>
        (both child isChild).1
      refine ⟨?_, nests⟩
      cases node with
      | program body place => exact absurd rfl noProgram
      | block body place => exact block_nests nests
      | statement form value place =>
          have isValue := both value List.mem_cons_self
          by_cases isFunction : form = .function
          · subst isFunction
            obtain ⟨left, right, between, rfl⟩ := isAllowed.assignment_of_function
            exact function_nests (isValue.2 left List.mem_cons_self)
              (isValue.2 right (List.mem_cons_of_mem left List.mem_cons_self))
          · exact statement_nests isFunction isValue.1
      | application form head arguments place =>
          exact application_nests (nests head List.mem_cons_self) fun argument isArgument =>
            nests argument (List.mem_cons_of_mem head isArgument)
      | assignment left right place =>
          exact assignment_nests (nests left List.mem_cons_self)
            (nests right (List.mem_cons_of_mem left List.mem_cons_self))
      | math operator left right place =>
          exact math_nests (nests left List.mem_cons_self)
            (nests right (List.mem_cons_of_mem left List.mem_cons_self))
      | union members place => exact @nests_of_single _ "" (by decide) fun _ => by rw [text?]
      | identifier name place =>
          exact nests_of_single (isSingle name rfl) fun _ => by rw [text?]
      | string value place =>
          exact nests_of_single (Quoted.newline_not_mem_text value) fun _ => by rw [text?]
      | number value place =>
          exact nests_of_single (Decimal.newline_not_mem_write value) fun _ => by rw [text?]
      | boolean value place =>
          refine nests_of_single ?_ fun _ => by rw [text?]
          cases value <;> decide

/-- Whether a node can be emitted inside `depth` blocks, with line breaks of the layout only: it was
built by constructors, its names are on one line each, and a program is in no block. -/
structure Placeable (depth : Nat) (node : Node) : Prop where
  obtainable : node.Obtainable
  single : node.HasSingleLineNames
  outermost : node.kind = .program → depth = 0

/-- What a node adds inside blocks is its JavaScript with their blanks put in. -/
theorem Placeable.exists_text {depth : Nat} (placeable : node.Placeable depth) :
    ∃ text, node.javascript? = some text ∧ node.text? depth = some (Page.nested depth text) := by
  have allowed := placeable.obtainable.allowed
  obtain ⟨text, isText⟩ := allowed.writable 0
  refine ⟨text, node.javascript?_eq.trans isText, ?_⟩
  by_cases isProgram : node.kind = .program
  · rw [placeable.outermost isProgram, Page.nested_zero, isText]
  · have moved := (allowed.nests placeable.single isProgram).1 depth 0
    rwa [Nat.zero_add, isText] at moved

theorem Placeable.emit_eq {page : Page} (placeable : node.Placeable page.depth) :
    ∃ text, node.javascript? = some text ∧
      node.emit page = some ⟨page.text ++ Page.nested page.depth text, page.depth⟩ := by
  obtain ⟨text, isText, isNested⟩ := placeable.exists_text
  exact ⟨text, isText, by rw [Node.emit_eq, isNested]; rfl⟩

/-- Nodes that are emitted in turn add one after the other what each adds by itself. -/
theorem emitAll_eq {page : Page} (placeable : ∀ node ∈ nodes, node.Placeable page.depth) :
    ∃ texts, nodes.mapM javascript? = some texts ∧
      emitAll nodes page =
        some ⟨page.text ++ String.join (texts.map (Page.nested page.depth)), page.depth⟩ := by
  induction nodes generalizing page with
  | nil => exact ⟨[], rfl, by rw [emitAll, List.map_nil, String.join_nil, String.append_empty]⟩
  | cons node rest inductionHypothesis =>
      obtain ⟨first, others⟩ := List.forall_mem_cons.mp placeable
      obtain ⟨text, isText, isEmitted⟩ := first.emit_eq
      obtain ⟨texts, areTexts, areEmitted⟩ :=
        @inductionHypothesis ⟨page.text ++ Page.nested page.depth text, page.depth⟩ others
      refine ⟨text :: texts, by rw [List.mapM_cons, isText, areTexts]; rfl, ?_⟩
      rw [emitAll, isEmitted, List.map_cons, String.join_cons, ← String.append_assoc]
      exact areEmitted

/-- Emission is compositional.  Whatever is on the page and however many blocks are open, a node
adds its JavaScript with the blanks of these blocks behind every newline and leaves the blocks as
they were; nodes in turn add one after the other what each adds by itself.  The blanks go into no
string and no number, and change no token. -/
theorem emission_isCompositional :
    (∀ (node : Node) (page : Page), node.Placeable page.depth →
      ∃ text, node.javascript? = some text ∧
        node.emit page = some ⟨page.text ++ Page.nested page.depth text, page.depth⟩) ∧
    (∀ (nodes : List Node) (page : Page), (∀ node ∈ nodes, node.Placeable page.depth) →
      ∃ texts, nodes.mapM javascript? = some texts ∧
        emitAll nodes page =
          some ⟨page.text ++ String.join (texts.map (Page.nested page.depth)), page.depth⟩ ∧
        emitAll nodes .blank = some ⟨String.join texts, 0⟩) ∧
    ∀ (depth : Nat) (front behind : String),
      (∀ value : String, Page.nested depth (front ++ Quoted.text value ++ behind) =
        Page.nested depth front ++ Quoted.text value ++ Page.nested depth behind) ∧
      (∀ value : Binary64,
        Page.nested depth (front ++ Decimal.write "Infinity" value ++ behind) =
          Page.nested depth front ++ Decimal.write "Infinity" value ++
            Page.nested depth behind) ∧
      Javascript.tokens? (Page.nested depth front).toList = Javascript.tokens? front.toList := by
  refine ⟨fun node page placeable => placeable.emit_eq, ?_, ?_⟩
  · intro nodes page placeable
    obtain ⟨texts, areTexts, areEmitted⟩ := emitAll_eq placeable
    refine ⟨texts, areTexts, areEmitted, ?_⟩
    have outermost : ∀ node ∈ nodes, node.Placeable Page.blank.depth := fun node isMember =>
      ⟨(placeable node isMember).obtainable, (placeable node isMember).single, fun _ => rfl⟩
    obtain ⟨others, areOthers, areSeparate⟩ := emitAll_eq outermost
    have noBlanks : others.map (Page.nested Page.blank.depth) = others :=
      (List.map_congr_left fun text _ => Page.nested_zero text).trans (List.map_id others)
    rw [areSeparate, noBlanks, Option.some.inj (areTexts.symm.trans areOthers)]
    exact congrArg (fun text => some (Page.mk text 0)) String.empty_append
  · intro depth front behind
    refine ⟨fun value => ?_, fun value => ?_, ?_⟩
    · rw [Page.nested_append, Page.nested_append,
        Page.nested_of_single (Quoted.newline_not_mem_text value)]
    · rw [Page.nested_append, Page.nested_append,
        Page.nested_of_single (Decimal.newline_not_mem_write value)]
    · unfold Page.nested
      rw [String.toList_ofList, Javascript.tokens?_indented]

/-- A block with a string of two lines, inside three blocks. -/
theorem emission_isCompositional_block :
    let place : Location := ⟨1, 0, 0, 1⟩
    let sides : Node := .assignment (.identifier "x" place) (.string "a\nb" place) place
    let block : Node := .block [.statement .binding sides place] place
    block.Placeable 3 ∧ ∃ text, block.javascript? = some text ∧
      block.emit ⟨"f", 3⟩ = some ⟨"f" ++ Page.nested 3 text, 3⟩ := by
  intro place sides block
  have isSides : sides.Obtainable :=
    .assignment (.identifier "x" place) (.string "a\nb" place) (rfl : sides.checked = .ok sides)
  let binding : Node := .statement .binding sides place
  have isBinding : binding.Obtainable :=
    .statement isSides (rfl : binding.checked = .ok binding)
  have isBlock : block.Obtainable :=
    .block (List.forall_mem_singleton.mpr isBinding) (rfl : block.checked = .ok block)
  have isPlaceable : block.Placeable 3 := by
    refine ⟨isBlock, ?_, nofun⟩
    have names : ∀ row ∈ block.preorder 0, row.2.name? = none ∨ row.2.name? = some "x" := by
      simp [block, sides, preorder, preorderAll, name?]
    intro row isRow name isName
    rcases names row isRow with isNone | isSome
    · rw [isNone] at isName
      cases isName
    · rw [isSome] at isName
      cases isName
      decide
  exact ⟨isPlaceable, emission_isCompositional.1 block ⟨"f", 3⟩ isPlaceable⟩

end Node

end SprigCompiler
