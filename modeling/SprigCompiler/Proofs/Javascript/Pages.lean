import SprigCompiler.Javascript.Emission

/-!
What a node adds to a page.

Emission only ever adds text, and what it adds depends on nothing but the number of open blocks,
which it leaves as it was.
-/

namespace SprigCompiler

namespace Page

def enclosed (depth : Nat) (lines : String) : String :=
  "\x7b\n" ++ lines ++ indentation depth ++ "\x7d"

@[simp] theorem depth_write (page : Page) (text : String) : (page.write text).depth = page.depth :=
  rfl

@[simp] theorem write_write (page : Page) (first second : String) :
    (page.write first).write second = page.write (first ++ second) := by
  simp only [write, String.append_assoc]

@[simp] theorem write_nothing (page : Page) : page.write "" = page := by
  simp only [write, String.append_empty]

theorem depth_openBlock (page : Page) : page.openBlock.depth = page.depth + 1 := rfl

/-- Lines between an opened and a closed block. -/
theorem closeBlock?_enclosed (page : Page) (lines : String) :
    (page.openBlock.write lines).closeBlock? = some (page.write (enclosed page.depth lines)) := by
  change some (Page.mk _ page.depth) = _
  simp only [enclosed, write, indent, openBlock, String.append_assoc]

def returned (depth : Nat) (value : String) : String :=
  enclosed depth (indentation (depth + 1) ++ "return " ++ value ++ ";\n")

end Page

namespace Node

def inParentheses (needed : Bool) (text : String) : String :=
  if needed then "(" ++ text ++ ")" else text

mutual
def text? (depth : Nat) : Node → Option String
  | program body _ => do return prelude ++ "\n" ++ (← paragraphs? depth body)
  | identifier name _ => some name
  | statement .main value _ => do return (← text? depth value) ++ ";"
  | statement .type _ _ => some ""
  | statement .binding value _ => do return "var " ++ (← text? depth value) ++ ";"
  | statement .function (assignment left right _) _ => do
      let header ← text? depth left
      let body? :=
        if right.isBlock then text? depth right
        else (text? (depth + 1) right).map (Page.returned depth)
      let parameters := if left.isIdentifier then "()" else ""
      return "function " ++ header ++ parameters ++ " " ++ (← body?)
  | statement .function _ _ => none
  | statement .result value _ => do return "return " ++ (← text? depth value) ++ ";"
  | block body _ => do return Page.enclosed depth (← lines? (depth + 1) body)
  | application form head arguments _ =>
      match form.lead? with
      | none => some ""
      | some lead => do
          return lead ++ (← text? depth head) ++ "(" ++ (← arguments? depth true arguments) ++ ")"
  | assignment left right _ => do return (← text? depth left) ++ " = " ++ (← text? depth right)
  | math operator left right _ => do
      return inParentheses left.isMath (← text? depth left) ++ " " ++ operator.sign ++ " " ++
        inParentheses right.isMath (← text? depth right)
  | union _ _ => some ""
  | string value _ => some (Quoted.text value)
  | number value _ => some (Decimal.write "Infinity" value)
  | boolean value _ => some (if value then "true" else "false")

def paragraphs? (depth : Nat) : List Node → Option String
  | [] => some ""
  | node :: rest =>
      if node.isTypeDeclaration then paragraphs? depth rest
      else do return "\n" ++ (← text? depth node) ++ "\n" ++ (← paragraphs? depth rest)

def lines? (depth : Nat) : List Node → Option String
  | [] => some ""
  | node :: rest =>
      if node.isTypeDeclaration then lines? depth rest
      else do return Page.indentation depth ++ (← text? depth node) ++ "\n" ++ (← lines? depth rest)

/-- The text of arguments; `isFirst` says that none stands before. -/
def arguments? (depth : Nat) (isFirst : Bool) : List Node → Option String
  | [] => some ""
  | node :: rest => do
      return (if isFirst then "" else ", ") ++ (← text? depth node) ++
        (← arguments? depth false rest)
end

section Parts

variable {node : Node}
  (adds : ∀ page : Page, node.emit page = (node.text? page.depth).map page.write)

include adds

private theorem parenthesized_eq (needed : Bool) (page : Page) :
    parenthesized needed node.emit page =
      ((node.text? page.depth).map (inParentheses needed)).map page.write := by
  unfold parenthesized inParentheses
  cases needed with
  | false => simp [adds]
  | true =>
      simp only [adds, Page.depth_write, if_true]
      cases text? page.depth node <;> simp [String.append_assoc]

private theorem returning_eq (isBody : Bool) (page : Page) :
    returning isBody node.emit page =
      (if isBody then node.text? page.depth
        else (node.text? (page.depth + 1)).map (Page.returned page.depth)).map page.write := by
  unfold returning
  cases isBody with
  | true => simp [adds]
  | false =>
      simp only [Bool.false_eq_true, if_false, adds, Page.indent, Page.depth_write,
        Page.depth_openBlock]
      cases text? (page.depth + 1) node with
      | none => rfl
      | some value =>
          simp only [Option.map_some, Option.bind_eq_bind, Option.bind_some, Page.write_write,
            Page.returned, Page.closeBlock?_enclosed]

end Parts

mutual
/-- Emission adds the text of a node and nothing else. -/
theorem emit_eq : ∀ (node : Node) (page : Page),
    node.emit page = (node.text? page.depth).map page.write
  | program body place, page => by
      simp only [emit, text?, emitParagraphs_eq body, Page.depth_write]
      cases paragraphs? page.depth body <;> simp
  | identifier name place, page => rfl
  | statement form value place, page => by
      cases form with
      | main =>
          simp only [emit, text?, emit_eq value]
          cases text? page.depth value <;> simp
      | type => simp [emit, text?]
      | binding =>
          simp only [emit, text?, emit_eq value, Page.depth_write]
          cases text? page.depth value <;> simp [String.append_assoc]
      | function =>
          cases value with
          | assignment left right between =>
              simp only [emit, text?, emit_eq left, returning_eq (emit_eq right), Page.depth_write]
              cases text? page.depth left with
              | none => rfl
              | some header =>
                  have parameters : ∀ page : Page,
                      (if left.isIdentifier then page.write "()" else page) =
                        page.write (if left.isIdentifier then "()" else "") := by
                    intro page
                    split <;> simp
                  simp only [Option.map_some, Option.bind_eq_bind, Option.bind_some, parameters,
                    Page.depth_write, Page.write_write]
                  generalize (if right.isBlock then text? page.depth right
                    else (text? (page.depth + 1) right).map (Page.returned page.depth)) = body
                  cases body <;> simp [String.append_assoc]
          | _ => rfl
      | result =>
          simp only [emit, text?, emit_eq value, Page.depth_write]
          cases text? page.depth value <;> simp [String.append_assoc]
  | block body place, page => by
      simp only [emit, text?, emitLines_eq body, Page.depth_openBlock]
      cases lines? (page.depth + 1) body with
      | none => rfl
      | some lines => exact Page.closeBlock?_enclosed page lines
  | application form head arguments place, page => by
      simp only [emit, text?]
      cases form.lead? with
      | none => simp
      | some lead =>
          simp only [emit_eq head, emitArguments_eq arguments, Page.depth_write]
          cases text? page.depth head with
          | none => rfl
          | some head =>
              simp only [Option.map_some, Option.bind_eq_bind, Option.bind_some, Page.depth_write]
              cases arguments? page.depth true arguments <;> simp [String.append_assoc]
  | assignment left right place, page => by
      simp only [emit, text?, emit_eq left, emit_eq right]
      cases text? page.depth left with
      | none => rfl
      | some left =>
          simp only [Option.map_some, Option.bind_eq_bind, Option.bind_some, Page.depth_write]
          cases text? page.depth right <;> simp [String.append_assoc]
  | math operator left right place, page => by
      simp only [emit, text?, parenthesized_eq (emit_eq left), parenthesized_eq (emit_eq right)]
      cases text? page.depth left with
      | none => rfl
      | some left =>
          simp only [Option.map_some, Option.bind_eq_bind, Option.bind_some, Page.depth_write]
          cases text? page.depth right <;> simp [String.append_assoc]
  | union members place, page => by simp [emit, text?]
  | string value place, page => rfl
  | number value place, page => rfl
  | boolean value place, page => rfl

theorem emitParagraphs_eq : ∀ (nodes : List Node) (page : Page),
    emitParagraphs nodes page = (paragraphs? page.depth nodes).map page.write
  | [], page => by simp [emitParagraphs, paragraphs?]
  | node :: rest, page => by
      simp only [emitParagraphs, paragraphs?, emit_eq node, emitParagraphs_eq rest,
        Page.depth_write]
      split
      · rfl
      · cases text? page.depth node with
        | none => rfl
        | some text =>
            simp only [Option.map_some, Option.bind_eq_bind, Option.bind_some, Page.depth_write]
            cases paragraphs? page.depth rest <;> simp [String.append_assoc]

theorem emitLines_eq : ∀ (nodes : List Node) (page : Page),
    emitLines nodes page = (lines? page.depth nodes).map page.write
  | [], page => by simp [emitLines, lines?]
  | node :: rest, page => by
      simp only [emitLines, lines?, Page.indent, emit_eq node, emitLines_eq rest, Page.depth_write]
      split
      · rfl
      · cases text? page.depth node with
        | none => rfl
        | some text =>
            simp only [Option.map_some, Option.bind_eq_bind, Option.bind_some, Page.depth_write]
            cases lines? page.depth rest <;> simp [String.append_assoc]

theorem emitArguments_eq : ∀ (nodes : List Node) (isFirst : Bool) (page : Page),
    emitArguments isFirst nodes page = (arguments? page.depth isFirst nodes).map page.write
  | [], isFirst, page => by simp [emitArguments, arguments?]
  | node :: rest, isFirst, page => by
      have separated : (if isFirst then page else page.write ", ") =
          page.write (if isFirst then "" else ", ") := by
        cases isFirst <;> simp
      simp only [emitArguments, arguments?, separated, emit_eq node, emitArguments_eq rest,
        Page.depth_write]
      cases text? page.depth node with
      | none => rfl
      | some text =>
          simp only [Option.map_some, Option.bind_eq_bind, Option.bind_some, Page.depth_write]
          cases arguments? page.depth false rest <;> simp [String.append_assoc]
end

theorem javascript?_eq (node : Node) : node.javascript? = node.text? 0 := by
  have written : ∀ text : String, (Page.blank.write text).text = text := fun text => by
    simp [Page.blank, Page.write]
  unfold javascript?
  rw [emit_eq, Option.map_map, show Page.text ∘ Page.blank.write = id from funext written,
    Option.map_id]
  rfl

end Node

end SprigCompiler
