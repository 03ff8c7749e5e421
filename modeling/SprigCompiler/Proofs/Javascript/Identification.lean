import SprigCompiler.Proofs.Javascript.Reading
import SprigCompiler.Proofs.Parser.Texts

/-!
What the JavaScript of a program says about the program.

The reader of emitted programs finds in the text of a parsed tree the normal form of the tree.  So
two programs have the same JavaScript exactly when their normal forms are equal up to locations.
-/

namespace SprigCompiler.Printed

open Javascript

/-- Whether a text is read as a node, with enough fuel, in front of any other text. -/
def IsRead (read? : Nat → List Char → Option (Node × List Char)) (text : String) (node : Node) :
    Prop :=
  ∃ least, ∀ fuel, least ≤ fuel → ∀ rest,
    read? fuel (text.toList ++ rest) = some (node, rest)

private theorem endsValue_semicolon (rest : List Char) : EndsValue (';' :: rest) :=
  ⟨⟨ends_cons rfl rest, fun same => absurd (Option.some.inj same) (by decide)⟩, rfl⟩

private theorem binding?_text {node : Node} (binding : Shape.Binding node) (depth : Nat) :
    ∃ text, node.text? depth = some ("var " ++ text) ∧
      IsRead binding? text node.normalized.unlocated := by
  cases binding with
  | @binding name value place between extent isWord isValue =>
      obtain ⟨text, isText, least, reads⟩ := value?_text isValue depth
      refine ⟨name ++ " = " ++ text ++ ";", ?_, least, fun fuel isEnough rest => ?_⟩
      · simp [Node.text?, isText, String.append_assoc]
      · have isPlain := isPlain_of_isWord isWord
        have ends : Ends (" = ".toList ++ (text.toList ++ ';' :: rest)) := ends_cons rfl _
        have isRead := (reads fuel isEnough).2 _ (endsValue_semicolon rest)
        obtain ⟨taken, dropped⟩ := plain_append isPlain ends
        have text_eq : (name ++ " = " ++ text ++ ";").toList ++ rest =
            name.toList ++ (" = ".toList ++ (text.toList ++ ';' :: rest)) := by
          simp only [String.toList_append, List.append_assoc]
          rfl
        rw [text_eq, binding?, taken, dropped]
        change ((value? fuel (text.toList ++ ';' :: rest)).bind _) = _
        rw [isRead, plain_of_isWord isWord place]
        rfl

private theorem keyword_append {keyword word : List Char} (keyword_eq : keyword = word ++ [' '])
    (isPlain : ∀ character ∈ word, isPlain character = true) (rest : List Char) :
    (keyword ++ rest).takeWhile Printed.isPlain = word ∧
      (keyword ++ rest).dropWhile Printed.isPlain = ' ' :: rest := by
  have ends : Ends (' ' :: rest) := ends_cons rfl _
  rw [keyword_eq, List.append_assoc, List.singleton_append]
  exact plain_append isPlain ends

/-- A statement of a block that declares no type is read as its normal form. -/
theorem line?_text {node : Node} (line : Shape.Line node) (noType : node.isTypeDeclaration = false)
    (depth : Nat) : ∃ text, node.text? depth = some text ∧ StartsLeaf text ∧
      IsRead line? text node.normalized.unlocated := by
  cases line with
  | type value place => cases noType
  | binding binding =>
      obtain ⟨text, isText, least, isRead⟩ := binding?_text binding depth
      have starts : ("var " ++ text).toList = "var ".toList ++ text.toList := String.toList_append
      refine ⟨_, isText, ⟨'v', _, starts, Or.inr rfl⟩, least, fun fuel isEnough rest => ?_⟩
      obtain ⟨taken, dropped⟩ := @keyword_append "var ".toList "var".toList rfl
        (List.all_eq_true.mp rfl) (text.toList ++ rest)
      rw [starts, List.append_assoc, line?, taken, dropped, if_pos rfl]
      exact isRead fuel isEnough rest
  | @result value place isValue =>
      obtain ⟨text, isText, least, reads⟩ := value?_text isValue depth
      have starts : ("return " ++ text ++ ";").toList =
          "return ".toList ++ (text ++ ";").toList := by
        simp only [String.toList_append, List.append_assoc]
      refine ⟨"return " ++ text ++ ";", ?_, ⟨'r', _, starts, Or.inr rfl⟩, least,
        fun fuel isEnough rest => ?_⟩
      · simp [Node.text?, isText, String.append_assoc]
      · obtain ⟨taken, dropped⟩ := @keyword_append "return ".toList "return".toList rfl
          (List.all_eq_true.mp rfl) ((text ++ ";").toList ++ rest)
        have isRead := (reads fuel isEnough).2 _ (endsValue_semicolon rest)
        have text_eq : (text ++ ";").toList ++ rest = text.toList ++ ';' :: rest := by
          rw [String.toList_append, List.append_assoc]
          rfl
        rw [starts, List.append_assoc, line?, taken, dropped, if_neg (by decide), List.tail_cons,
          text_eq, isRead]
        rfl

private theorem dropWhile_indentation (depth : Nat) {text : List Char}
    (noBlank : text.head? ≠ some ' ') :
    ((Page.indentation depth).toList ++ text).dropWhile (· = ' ') = text := by
  have isBlank : ∀ character ∈ (Page.indentation depth).toList,
      decide (character = ' ') = true := by
    intro character isMember
    rw [Page.indentation, String.toList_ofList] at isMember
    exact decide_eq_true (List.eq_of_mem_replicate isMember)
  refine Piece.dropWhile_append_of_all isBlank fun next isNext => decide_eq_false ?_
  rintro rfl
  exact noBlank isNext

private theorem lines?_cons {fuel : Nat} {text inside rest behind : List Char} {line : Node}
    {others : List Node} (isInside : text.dropWhile (· = ' ') = inside)
    (noBrace : inside.head? ≠ some '\x7d') (isLine : line? fuel inside = some (line, '\n' :: rest))
    (areOthers : lines? fuel rest = some (others, behind)) :
    lines? (fuel + 1) text = some (line :: others, behind) := by
  rw [lines?]
  dsimp only
  rw [isInside, if_neg noBrace, isLine]
  simp only [Option.bind_eq_bind, Option.bind_some, List.tail_cons, areOthers]
  rfl

/-- Statements are read as the normal forms of those that declare no types, up to the brace behind
them. -/
theorem lines?_text {body : List Node} (lines : ∀ line ∈ body, Shape.Line line)
    (depth outside : Nat) : ∃ text, Node.lines? depth body = some text ∧
      ∃ least, ∀ fuel, least ≤ fuel → ∀ rest,
        lines? fuel (text.toList ++ ((Page.indentation outside).toList ++ '\x7d' :: rest)) =
          some ((Node.normalizedBody body).map Node.unlocated, rest) := by
  induction body with
  | nil =>
      refine ⟨"", rfl, 1, fun fuel isEnough rest => ?_⟩
      obtain ⟨fuel, rfl⟩ := Nat.exists_eq_succ_of_ne_zero (show fuel ≠ 0 by omega)
      have isBrace : ('\x7d' :: rest).head? = some '\x7d' := rfl
      have isInside := @dropWhile_indentation outside ('\x7d' :: rest)
        fun same => absurd (Option.some.inj same) (by decide)
      rw [lines?]
      dsimp only
      rw [show "".toList ++ ((Page.indentation outside).toList ++ '\x7d' :: rest) =
        (Page.indentation outside).toList ++ '\x7d' :: rest from rfl, isInside, if_pos isBrace]
      rfl
  | cons line others inductionHypothesis =>
      rw [List.forall_mem_cons] at lines
      obtain ⟨behind, isBehind, leastOthers, areRead⟩ := inductionHypothesis lines.2
      by_cases isType : line.isTypeDeclaration = true
      · -- A type leaves neither a line nor a part of the normal form.
        refine ⟨behind, ?_, leastOthers, ?_⟩
        · rw [Node.lines?, if_pos isType, isBehind]
        · rw [Node.normalizedBody, if_pos isType]
          exact areRead
      · obtain ⟨text, isText, starts, leastFirst, isRead⟩ :=
          line?_text lines.1 (Bool.eq_false_iff.mpr isType) depth
        refine ⟨Page.indentation depth ++ text ++ "\n" ++ behind, ?_,
          max leastFirst leastOthers + 1, fun fuel isEnough rest => ?_⟩
        · rw [Node.lines?, if_neg isType]
          simp only [isText, isBehind, Option.bind_eq_bind, Option.bind_some]
          rfl
        · obtain ⟨fuel, rfl⟩ := Nat.exists_eq_succ_of_ne_zero (show fuel ≠ 0 by omega)
          let more := '\n' ::
            (behind.toList ++ ((Page.indentation outside).toList ++ '\x7d' :: rest))
          have text_eq : (Page.indentation depth ++ text ++ "\n" ++ behind).toList ++
              ((Page.indentation outside).toList ++ '\x7d' :: rest) =
                (Page.indentation depth).toList ++ (text.toList ++ more) := by
            simp only [String.toList_append, List.append_assoc]
            rfl
          have starts := fun other => @starts.ne text other
          rw [text_eq, Node.normalizedBody, if_neg isType, List.map_cons]
          exact lines?_cons (dropWhile_indentation depth (starts ' ' (by decide) more))
            (starts '\x7d' (by decide) more) (isRead fuel (by omega) more)
            (areRead fuel (by omega) rest)

theorem body_text {node : Node} (body : Shape.Body node) (depth : Nat) :
    ∃ lines statements,
      (if node.isBlock then node.text? depth
        else (node.text? (depth + 1)).map (Page.returned depth)) =
          some (Page.enclosed depth lines) ∧
      (Node.asBlock node.isBlock node.normalized).unlocated = .block statements nowhere ∧
      ∃ least, ∀ fuel, least ≤ fuel → ∀ rest,
        lines? fuel (lines.toList ++ ((Page.indentation depth).toList ++ '\x7d' :: rest)) =
          some (statements, rest) := by
  cases body with
  | value isValue =>
      -- The value is written like a block that returns it.
      have isLine : ∀ line ∈ [Node.statement .result node node.location], Shape.Line line :=
        List.forall_mem_singleton.mpr (.result isValue)
      obtain ⟨value, isText, _⟩ := value?_text isValue (depth + 1)
      obtain ⟨text, isLines, isRead⟩ := lines?_text isLine (depth + 1) depth
      have noBlock : node.isBlock = false := by
        cases isValue with
        | leaf leaf => cases leaf <;> rfl
        | call => rfl
        | math => rfl
      have text_eq : Page.returned depth value = Page.enclosed depth text := by
        simp only [Node.lines?, Node.isTypeDeclaration, Node.text?, isText, Option.bind_eq_bind,
          Option.bind_some, Bool.false_eq_true, if_false] at isLines
        rw [← Option.some.inj isLines]
        simp [Page.returned, String.append_assoc]
      refine ⟨text, _, ?_, ?_, isRead⟩
      · rw [noBlock, if_neg Bool.false_ne_true, isText, Option.map_some, text_eq]
      · rw [noBlock]
        rfl
  | @block body place lines =>
      obtain ⟨text, isText, isRead⟩ := lines?_text lines (depth + 1) depth
      refine ⟨text, _, ?_, ?_, isRead⟩
      · simp only [Node.isBlock, if_true, Node.text?, isText]
        rfl
      · exact unlocated_block _ place

/-- The head of a function is read as its name and its parameters. -/
theorem header_text {node : Node} (header : Shape.Header node) (depth : Nat) :
    ∃ text name row parameters, IsWord name ∧ node.text? depth = some text ∧
      text ++ (if node.isIdentifier then "()" else "") = name ++ "(" ++ row ++ ")" ∧
      (Node.withParameters node.isIdentifier node.normalized).unlocated =
        .application .functionParameters (plain name.toList) parameters nowhere ∧
      ∃ least, ∀ fuel, least ≤ fuel → ∀ rest,
        arguments? fuel (row.toList ++ ')' :: rest) = some (parameters, rest) := by
  cases header with
  | @name name place isWord =>
      have none : ∀ parameter ∈ ([] : List Node), Shape.Leaf parameter := fun parameter isMember =>
        absurd isMember List.not_mem_nil
      obtain ⟨row, isRow, _, areRead⟩ := arguments?_text none depth true
      cases isRow
      refine ⟨name, name, "", [], isWord, rfl, ?_, ?_, areRead⟩
      · simp [Node.isIdentifier, String.append_assoc]
      · rw [plain_of_isWord isWord place]
        rfl
  | @parameters name parameters place extent isWord leaves =>
      obtain ⟨row, isRow, _, areRead⟩ := arguments?_text leaves depth true
      refine ⟨name ++ "(" ++ row ++ ")", name, row, _, isWord, ?_, ?_, ?_, areRead⟩
      · simp [Node.text?, ApplicationForm.lead?, isRow]
      · simp [Node.isIdentifier]
      · rw [plain_of_isWord isWord place]
        exact unlocated_application _ _ _ extent

private theorem function?_text {left right node : Node} {between extent : Location}
    (header : Shape.Header left) (body : Shape.Body right)
    (node_eq : node = .statement .function (.assignment left right between) extent) (depth : Nat) :
    ∃ text, node.text? depth = some ("function " ++ text) ∧
      IsRead function? text node.normalized.unlocated := by
  subst node_eq
  obtain ⟨front, name, row, parameters, isWord, isFront, front_eq, isHeader, leastRow, isRow⟩ :=
    header_text header depth
  obtain ⟨lines, statements, isText, isBody, leastLines, areLines⟩ := body_text body depth
  refine ⟨name ++ "(" ++ row ++ ")" ++ " " ++ Page.enclosed depth lines, ?_,
    max leastRow leastLines, fun fuel isEnough rest => ?_⟩
  · simp only [Node.text?, isFront, isText, Option.bind_eq_bind, Option.bind_some]
    rw [← front_eq]
    simp only [String.append_assoc]
    rfl
  · have isPlain := isPlain_of_isWord isWord
    let behind := lines.toList ++ ((Page.indentation depth).toList ++ '\x7d' :: rest)
    let more := row.toList ++ ')' :: (" \x7b\n".toList ++ behind)
    have ends : Ends ('(' :: more) := ends_cons rfl _
    obtain ⟨taken, dropped⟩ := plain_append isPlain ends
    have areParameters := isRow fuel (by omega) (" \x7b\n".toList ++ behind)
    have areStatements := areLines fuel (by omega) rest
    have text_eq : (name ++ "(" ++ row ++ ")" ++ " " ++ Page.enclosed depth lines).toList ++ rest =
        name.toList ++ '(' :: more := by
      simp only [Page.enclosed, String.toList_append, List.append_assoc, more, behind]
      rfl
    have isNormal : (Node.statement .function (.assignment left right between)
        extent).normalized.unlocated = .statement .function (.assignment
          (.application .functionParameters (plain name.toList) parameters nowhere)
          (.block statements nowhere) nowhere) nowhere := by
      rw [← isHeader, ← isBody]
      rfl
    rw [text_eq, isNormal, function?, taken, dropped, List.tail_cons, areParameters]
    simp only [Option.bind_eq_bind, Option.bind_some]
    rw [show (" \x7b\n".toList ++ behind).drop 3 = behind from rfl, areStatements]
    rfl

/-- A statement of a program that declares no type is read as its normal form. -/
theorem paragraph?_text {node : Node} (paragraph : Shape.Paragraph node)
    (noType : node.isTypeDeclaration = false) (depth : Nat) :
    ∃ text, node.text? depth = some text ∧
      IsRead paragraph? text node.normalized.unlocated := by
  cases paragraph with
  | @main name arguments place extent whole isWord leaves =>
      obtain ⟨row, isRow, _, least, areRead⟩ := arguments?_text leaves depth true
      refine ⟨name ++ "(" ++ row ++ ")" ++ ";", ?_, least, fun fuel isEnough rest => ?_⟩
      · simp [Node.text?, ApplicationForm.lead?, isRow]
      · have isPlain := isPlain_of_isWord isWord
        have ends : Ends ('(' :: (row.toList ++ ')' :: ';' :: rest)) := ends_cons rfl _
        obtain ⟨taken, dropped⟩ := plain_append isPlain ends
        have areArguments := areRead fuel isEnough (';' :: rest)
        have text_eq : (name ++ "(" ++ row ++ ")" ++ ";").toList ++ rest =
            name.toList ++ '(' :: (row.toList ++ ')' :: ';' :: rest) := by
          simp only [String.toList_append, List.append_assoc]
          rfl
        rw [text_eq, paragraph?]
        dsimp only
        rw [taken, dropped, if_pos (show ('(' :: _).head? = some '(' from rfl), List.tail_cons,
          areArguments, plain_of_isWord isWord place]
        exact congrArg some (Prod.ext (congrArg (Node.statement .main · nowhere)
          (unlocated_application .call _ _ extent).symm) rfl)
  | type value place => cases noType
  | binding binding =>
      obtain ⟨text, isText, least, isRead⟩ := binding?_text binding depth
      refine ⟨_, isText, least, fun fuel isEnough rest => ?_⟩
      obtain ⟨taken, dropped⟩ := @keyword_append "var ".toList "var".toList rfl
        (List.all_eq_true.mp rfl) (text.toList ++ rest)
      have noParenthesis : (' ' :: (text.toList ++ rest)).head? ≠ some '(' := fun same =>
        absurd (Option.some.inj same) (by decide)
      rw [String.toList_append, List.append_assoc, paragraph?]
      dsimp only
      rw [taken, dropped, if_neg noParenthesis, if_pos rfl]
      exact isRead fuel isEnough rest
  | @function left right between extent header body =>
      obtain ⟨text, isText, least, isRead⟩ := function?_text header body rfl depth
      refine ⟨_, isText, least, fun fuel isEnough rest => ?_⟩
      obtain ⟨taken, dropped⟩ := @keyword_append "function ".toList "function".toList rfl
        (List.all_eq_true.mp rfl) (text.toList ++ rest)
      have noParenthesis : (' ' :: (text.toList ++ rest)).head? ≠ some '(' := fun same =>
        absurd (Option.some.inj same) (by decide)
      rw [String.toList_append, List.append_assoc, paragraph?]
      dsimp only
      rw [taken, dropped, if_neg noParenthesis, if_neg (by decide)]
      exact isRead fuel isEnough rest

/-- The statements of a program are read as the normal forms of those that declare no types. -/
theorem paragraphs?_text {body : List Node}
    (paragraphs : ∀ paragraph ∈ body, Shape.Paragraph paragraph) (depth : Nat) :
    ∃ text, Node.paragraphs? depth body = some text ∧ ∃ least, ∀ fuel, least ≤ fuel →
      paragraphs? fuel text.toList = some ((Node.normalizedBody body).map Node.unlocated) := by
  induction body with
  | nil =>
      refine ⟨"", rfl, 1, fun fuel isEnough => ?_⟩
      obtain ⟨fuel, rfl⟩ := Nat.exists_eq_succ_of_ne_zero (show fuel ≠ 0 by omega)
      rfl
  | cons paragraph others inductionHypothesis =>
      rw [List.forall_mem_cons] at paragraphs
      obtain ⟨behind, isBehind, leastOthers, areRead⟩ := inductionHypothesis paragraphs.2
      by_cases isType : paragraph.isTypeDeclaration = true
      · refine ⟨behind, ?_, leastOthers, ?_⟩
        · rw [Node.paragraphs?, if_pos isType, isBehind]
        · rw [Node.normalizedBody, if_pos isType]
          exact areRead
      · obtain ⟨text, isText, leastFirst, isRead⟩ :=
          paragraph?_text paragraphs.1 (Bool.eq_false_iff.mpr isType) depth
        refine ⟨"\n" ++ text ++ "\n" ++ behind, ?_, max leastFirst leastOthers + 1,
          fun fuel isEnough => ?_⟩
        · rw [Node.paragraphs?, if_neg isType, isText, isBehind]
          rfl
        · obtain ⟨fuel, rfl⟩ := Nat.exists_eq_succ_of_ne_zero (show fuel ≠ 0 by omega)
          have isFirst := isRead fuel (by omega) ('\n' :: behind.toList)
          have areOthers := areRead fuel (by omega)
          have text_eq : ("\n" ++ text ++ "\n" ++ behind).toList =
              '\n' :: (text.toList ++ '\n' :: behind.toList) := by
            simp only [String.toList_append, List.append_assoc]
            rfl
          rw [text_eq, Node.normalizedBody, if_neg isType, List.map_cons, paragraphs?, isFirst]
          simp only [Option.bind_eq_bind, Option.bind_some, List.tail_cons, areOthers]
          rfl

/-- The JavaScript of a program is read as its normal form. -/
theorem program?_text {node : Node} (program : Shape.Program node) :
    ∃ text, node.javascript? = some text ∧ ∃ least, ∀ fuel, least ≤ fuel →
      program? fuel text.toList = some node.normalized.unlocated := by
  cases program with
  | @program body place paragraphs =>
      obtain ⟨text, isText, least, areRead⟩ := paragraphs?_text paragraphs 0
      refine ⟨prelude ++ "\n" ++ text, ?_, least, fun fuel isEnough => ?_⟩
      · rw [Node.javascript?_eq, Node.text?, isText]
        rfl
      · have isDropped : (prelude ++ "\n" ++ text).toList.drop (prelude.length + 1) =
            text.toList := by
          rw [String.toList_append]
          rfl
        have isNormal : (Node.program body place).normalized.unlocated =
            .program ((Node.normalizedBody body).map Node.unlocated) nowhere := by
          unfold Node.unlocated
          rw [Node.normalized, Node.relocated, Node.relocatedAll_eq_map]
          rfl
        rw [program?, isDropped, areRead fuel isEnough, isNormal]
        rfl

end SprigCompiler.Printed

namespace SprigCompiler

theorem shape_of_parse {content : String} {node : Node} (parsed : parse content = .ok node) :
    Shape.Program node := by
  rw [← @String.ofList_toList content] at parsed
  obtain ⟨lexemes, isLexemes, derivation⟩ := parse_sound parsed
  exact Grammar.Program.shape derivation (spelled_of_lexemes? isLexemes)

/-- Two programs have the same JavaScript exactly when their normal forms are equal up to
locations. -/
theorem javascript?_eq_iff_normalized {first second : String} {node other : Node}
    (parsed : parse first = .ok node) (otherParsed : parse second = .ok other) :
    ∃ text otherText, node.javascript? = some text ∧ other.javascript? = some otherText ∧
      (text = otherText ↔ node.normalized.Alike other.normalized) := by
  obtain ⟨text, isText, least, isRead⟩ := Printed.program?_text (shape_of_parse parsed)
  obtain ⟨otherText, isOtherText, otherLeast, isOtherRead⟩ :=
    Printed.program?_text (shape_of_parse otherParsed)
  refine ⟨text, otherText, isText, isOtherText, ?_, fun alike => ?_⟩
  · -- Both normal forms are read from the one text.
    rintro rfl
    have found := isRead (max least otherLeast) (Nat.le_max_left _ _)
    rw [isOtherRead (max least otherLeast) (Nat.le_max_right _ _)] at found
    exact (Option.some.inj found).symm
  · have same := Node.javascript?_eq_of_normalized alike
    rw [isText, isOtherText] at same
    exact Option.some.inj same

/-- A function below a type, without a list of parameters and without a block, and one with both. -/
theorem javascript?_eq_iff_normalized_function :
    ∃ node other, parse "type T = A\nfun f = true" = .ok node ∧
      parse "fun f() = \x7b return true \x7d" = .ok other ∧
      node.normalized.Alike other.normalized := by
  let written := "'use strict';\n\nfunction f() \x7b\n  return true;\n\x7d\n"
  have isFirst : (parse "type T = A\nfun f = true").toOption.bind Node.javascript? =
      some written := by
    decide +kernel
  have isSecond : (parse "fun f() = \x7b return true \x7d").toOption.bind Node.javascript? =
      some written := by
    decide +kernel
  cases parsed : parse "type T = A\nfun f = true" with
  | error error =>
      rw [parsed] at isFirst
      cases isFirst
  | ok node =>
      cases otherParsed : parse "fun f() = \x7b return true \x7d" with
      | error error =>
          rw [otherParsed] at isSecond
          cases isSecond
      | ok other =>
          rw [parsed] at isFirst
          rw [otherParsed] at isSecond
          obtain ⟨text, otherText, isText, isOtherText, same⟩ :=
            javascript?_eq_iff_normalized parsed otherParsed
          have isEqual : some text = some otherText :=
            isText.symm.trans (isFirst.trans (isSecond.symm.trans isOtherText))
          exact ⟨node, other, rfl, rfl, same.mp (Option.some.inj isEqual)⟩

end SprigCompiler
