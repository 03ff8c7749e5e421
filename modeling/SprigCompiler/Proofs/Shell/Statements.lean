import SprigCompiler.Proofs.Compile.Concatenation
import SprigCompiler.Proofs.Guarded.Compilation
import SprigCompiler.Proofs.Javascript.Identification
import SprigCompiler.Shell.Evaluation

/-!
The statements that the shell prints.

The shell cuts the prelude and the blanks around the statements off the JavaScript of a program.
Every statement starts with a letter or an underscore and ends with a semicolon or a brace.  So what
is left are the statements as they are, with an empty line between each two of them.
-/

namespace SprigCompiler

/-- Whether there are characters, and neither the first nor the last of them is blank. -/
structure Tight (characters : List Char) : Prop where
  first : ∃ first ∈ characters.head?, isBlank first = false
  last : ∃ last ∈ characters.getLast?, isBlank last = false

variable {front inside behind : List Char} {first last : Char} {name text : String}
  {texts : List String} {node : Node} {nodes : List Node}

namespace Tight

private theorem append (starts : Tight front) (ends : Tight behind) (between : List Char) :
    Tight (front ++ between ++ behind) where
  first := by
    obtain ⟨first, isFirst, noBlank⟩ := starts.first
    refine ⟨first, ?_, noBlank⟩
    rw [List.append_assoc, List.head?_append, Option.mem_def.mp isFirst]
    rfl
  last := by
    obtain ⟨last, isLast, noBlank⟩ := ends.last
    refine ⟨last, ?_, noBlank⟩
    rw [List.getLast?_append, Option.mem_def.mp isLast]
    rfl

private theorem enclosed (first last : Char) (starts : isBlank first = false)
    (ends : isBlank last = false) (inside : List Char) : Tight (first :: (inside ++ [last])) where
  first := ⟨first, rfl, starts⟩
  last := ⟨last, by rw [← List.cons_append, List.getLast?_concat]; rfl, ends⟩

private theorem trimStart_eq (tight : Tight inside)
    (blank : ∀ character ∈ front, isBlank character = true)
    (behind : List Char) : trimStart (front ++ (inside ++ behind)) = inside ++ behind := by
  obtain ⟨first, isFirst, noBlank⟩ := tight.first
  obtain ⟨rest, rfl⟩ := List.head?_eq_some_iff.mp isFirst
  unfold trimStart
  rw [List.dropWhile_append_of_pos blank, List.cons_append,
    List.dropWhile_cons_of_neg (by rw [noBlank]; exact Bool.false_ne_true)]

/-- Trimming takes the blanks around tight characters away and nothing else. -/
theorem trim_eq (tight : Tight inside) (blankFront : ∀ character ∈ front, isBlank character = true)
    (blankBehind : ∀ character ∈ behind, isBlank character = true) :
    trim (front ++ (inside ++ behind)) = inside := by
  obtain ⟨last, isLast, noBlank⟩ := tight.last
  obtain ⟨more, isInside⟩ := List.getLast?_eq_some_iff.mp isLast
  have blank : ∀ character ∈ behind.reverse, isBlank character = true :=
    fun character isMember => blankBehind character (List.mem_reverse.mp isMember)
  unfold trim trimEnd
  rw [tight.trimStart_eq blankFront, List.reverse_append, List.dropWhile_append_of_pos blank,
    isInside, List.reverse_append, List.reverse_singleton, List.singleton_append,
    List.dropWhile_cons_of_neg (by rw [noBlank]; exact Bool.false_ne_true), List.reverse_cons,
    List.reverse_reverse]

end Tight

private theorem toNat_le_of_isAlpha (isAlpha : first.isAlpha = true) : first.toNat ≤ 122 := by
  rcases Bool.or_eq_true_iff.mp isAlpha with isUpper | isLower
  · have bounds : 'A'.val ≤ first.val ∧ first.val ≤ 'Z'.val := of_decide_eq_true isUpper
    have isEarly : first.toNat ≤ 90 := UInt32.le_iff_toNat_le.mp bounds.2
    omega
  · have bound : first.val ≤ 'z'.val := of_decide_eq_true (Bool.and_eq_true_iff.mp isLower).2
    exact UInt32.le_iff_toNat_le.mp bound

private theorem isBlank_of_isWordCharacter (isWord : Piece.isWordCharacter first = true) :
    isBlank first = false := by
  rcases Bool.or_eq_true_iff.mp isWord with isAlpha | isScore
  · have isLate := Piece.toNat_of_isAlpha isAlpha
    have isEarly := toNat_le_of_isAlpha isAlpha
    unfold isBlank
    simp only [Bool.or_eq_false_iff, Bool.and_eq_false_iff, decide_eq_false_iff_not,
      beq_eq_false_iff_ne]
    omega
  · rw [beq_iff_eq.mp isScore]
    rfl

/-- A statement of a program that declares no type is tight. -/
theorem Shape.Paragraph.tight (paragraph : Shape.Paragraph node)
    (noType : node.isTypeDeclaration = false) :
    ∃ text, node.javascript? = some text ∧ Tight text.toList := by
  rw [Node.javascript?_eq]
  cases paragraph with
  | @main name arguments place extent whole isWord leaves =>
      obtain ⟨row, isRow, _⟩ := Printed.arguments?_text leaves 0 true
      refine ⟨name ++ "(" ++ row ++ ")" ++ ";", ?_, ?_⟩
      · simp [Node.text?, ApplicationForm.lead?, isRow]
      · obtain ⟨first, rest, isName⟩ := List.exists_cons_of_ne_nil isWord.1
        have starts := isWord.2 first (by rw [isName]; exact List.mem_cons_self)
        have tight := Tight.enclosed first ';' (isBlank_of_isWordCharacter starts) rfl
          (rest ++ "(".toList ++ row.toList ++ ")".toList)
        simpa [isName] using tight
  | type => cases noType
  | binding binding =>
      cases binding with
      | @binding name value place between extent isWord isValue =>
          obtain ⟨text, isText, _⟩ := Printed.value?_text isValue 0
          refine ⟨"var " ++ name ++ " = " ++ text ++ ";", ?_, ?_⟩
          · simp [Node.text?, isText, String.append_assoc]
          · have tight := Tight.enclosed 'v' ';' rfl rfl
              ("ar ".toList ++ name.toList ++ " = ".toList ++ text.toList)
            simpa using tight
  | @function left right between extent header body =>
      obtain ⟨head, _, _, _, _, isHead, _⟩ := Printed.header_text header 0
      obtain ⟨lines, _, isText, _⟩ := Printed.body_text body 0
      refine ⟨"function " ++ head ++ (if left.isIdentifier then "()" else "") ++ " " ++
        Page.enclosed 0 lines, ?_, ?_⟩
      · simp only [Node.text?, isHead, isText, Option.bind_eq_bind, Option.bind_some]
        rfl
      · have tight := Tight.enclosed 'f' '\x7d' rfl rfl
          ("unction ".toList ++ head.toList ++ (if left.isIdentifier then "()" else "").toList ++
            " ".toList ++ "\x7b\n".toList ++ lines.toList ++ (Page.indentation 0).toList)
        simpa [Page.enclosed] using tight

def paragraph (text : String) : String := "\n" ++ text ++ "\n"

private theorem exists_texts (paragraphs : ∀ node ∈ nodes, Shape.Paragraph node) :
    ∃ texts, List.Forall₂ (fun node text => node.javascript? = some text)
        (nodes.filter (!·.isTypeDeclaration)) texts ∧
      (∀ text ∈ texts, Tight text.toList) ∧
      Node.paragraphs? 0 nodes = some (String.join (texts.map paragraph)) := by
  induction nodes with
  | nil => exact ⟨[], .nil, nofun, rfl⟩
  | cons node rest inductionHypothesis =>
      obtain ⟨first, others⟩ := List.forall_mem_cons.mp paragraphs
      obtain ⟨texts, written, tight, areTexts⟩ := inductionHypothesis others
      cases isType : node.isTypeDeclaration with
      | true =>
          refine ⟨texts, ?_, tight, ?_⟩
          · rw [List.filter_cons_of_neg (by simp [isType])]
            exact written
          · rw [Node.paragraphs?, if_pos isType, areTexts]
      | false =>
          obtain ⟨text, isText, isTight⟩ := first.tight isType
          refine ⟨text :: texts, ?_, List.forall_mem_cons.mpr ⟨isTight, tight⟩, ?_⟩
          · rw [List.filter_cons_of_pos (by simp [isType])]
            exact .cons isText written
          · rw [Node.javascript?_eq] at isText
            rw [Node.paragraphs?, if_neg (by simp [isType]), isText, areTexts, List.map_cons,
              String.join_cons]
            rfl

private theorem toList_intercalate_cons_cons (first second : String) (rest : List String) :
    ("\n\n".intercalate (first :: second :: rest)).toList =
      first.toList ++ "\n\n".toList ++ ("\n\n".intercalate (second :: rest)).toList := by
  simp only [String.toList_intercalate, List.map_cons, List.intercalate_cons_cons,
    List.append_assoc]

private theorem tight_intercalate (first : String) (rest : List String)
    (tight : ∀ text ∈ first :: rest, Tight text.toList) :
    Tight ("\n\n".intercalate (first :: rest)).toList := by
  induction rest generalizing first with
  | nil =>
      rw [String.intercalate_singleton]
      exact tight first List.mem_cons_self
  | cons second rest inductionHypothesis =>
      obtain ⟨isFirst, others⟩ := List.forall_mem_cons.mp tight
      rw [toList_intercalate_cons_cons]
      exact isFirst.append (inductionHypothesis second others) _

/-- Statements with an empty line in front of each are statements with an empty line between each
two of them. -/
theorem toList_join_paragraphs (first : String) (rest : List String) :
    (String.join ((first :: rest).map paragraph)).toList =
      '\n' :: (("\n\n".intercalate (first :: rest)).toList ++ ['\n']) := by
  induction rest generalizing first with
  | nil => simp [paragraph, String.join_cons]
  | cons second rest inductionHypothesis =>
      rw [List.map_cons, String.join_cons, String.toList_append, inductionHypothesis,
        toList_intercalate_cons_cons]
      simp [paragraph]

namespace Shell

/-- The prelude is taken away once. -/
theorem withoutPrelude_append (rest : List Char) :
    withoutPrelude (prelude.toList ++ '\n' :: rest) = '\n' :: rest := by
  rw [withoutPrelude, if_pos (List.isPrefixOf_iff_prefix.mpr (List.prefix_append _ _)),
    List.drop_left, withoutPrelude, if_neg]
  rw [List.isPrefixOf_iff_prefix]
  rintro ⟨more, impossible⟩
  cases impossible

/-- What the shell prints of a program are its statements. -/
theorem lineUnlessEmpty_statementsOf (tight : ∀ text ∈ texts, Tight text.toList) :
    lineUnlessEmpty (statementsOf (prelude ++ "\n" ++ String.join (texts.map paragraph))) =
      if texts = [] then "" else "\n\n".intercalate texts ++ "\n" := by
  have blank : ∀ character ∈ ['\n'], isBlank character = true :=
    List.forall_mem_singleton.mpr rfl
  unfold statementsOf
  rw [String.toList_append, String.toList_append, List.append_assoc]
  change lineUnlessEmpty (String.ofList (trim (withoutPrelude
    (prelude.toList ++ '\n' :: (String.join (texts.map paragraph)).toList)))) = _
  rw [withoutPrelude_append]
  cases texts with
  | nil => rfl
  | cons first rest =>
      have isTight := tight_intercalate first rest tight
      have trimmed := @Tight.trim_eq ['\n', '\n'] _ ['\n'] isTight
        (List.forall_mem_cons.mpr ⟨rfl, blank⟩) blank
      rw [toList_join_paragraphs]
      change lineUnlessEmpty (String.ofList (trim (['\n', '\n'] ++
        (("\n\n".intercalate (first :: rest)).toList ++ ['\n'])))) = _
      rw [trimmed, String.ofList_toList, if_neg (List.cons_ne_nil _ _)]
      unfold lineUnlessEmpty
      rw [if_neg]
      rw [String.isEmpty_iff]
      intro isEmpty
      obtain ⟨_, isFirst, _⟩ := isTight.first
      rw [isEmpty] at isFirst
      cases isFirst

/-- The shell and the compiler give the same statements.  The JavaScript of a program is the prelude
and, for each statement that declares no type, the statement as it is emitted alone behind an empty
line; the shell prints these statements with an empty line between each two of them, or nothing if
there are none.  An input with an open block is not finished, and nothing is written; for any other
error its diagnostic is. -/
theorem evaluate_statements (options : Options) (input : String) :
    match compile input with
    | .ok compiled => ∃ body place texts,
        compiled.tree = .program body place ∧
        List.Forall₂ (fun node text => node.javascript? = some text)
          (body.filter (!·.isTypeDeclaration)) texts ∧
        compiled.javascript =
          "'use strict';\n" ++ String.join (texts.map fun text => "\n" ++ text ++ "\n") ∧
        evaluate options input =
          { finished := true
            output := if texts = [] then "" else "\n\n".intercalate texts ++ "\n"
            errors := if options.showTree then compiled.tree.text ++ "\n" else "" }
    | .error error => ∃ cause, error = .parse cause ∧
        evaluate options input =
          match cause with
          | .incomplete _ => { finished := false, output := "", errors := "" }
          | _ =>
              { finished := true
                output := ""
                errors := renderError options.color input cause } := by
  cases compiles : compile input with
  | ok compiled =>
      obtain ⟨parsed, isJavascript⟩ := compile_eq_ok.mp compiles
      have answer : evaluate options input =
          { finished := true
            output := lineUnlessEmpty (statementsOf compiled.javascript)
            errors := if options.showTree then compiled.tree.text ++ "\n" else "" } := by
        unfold evaluate
        rw [compiles]
      have shape := shape_of_parse parsed
      generalize isTree : compiled.tree = tree at *
      cases shape with
      | @program body place paragraphs =>
          obtain ⟨texts, written, tight, areTexts⟩ := exists_texts paragraphs
          rw [Node.javascript?_program, areTexts, Option.map_some, Option.some.injEq]
            at isJavascript
          refine ⟨body, place, texts, isTree, written, isJavascript.symm, ?_⟩
          rw [answer, ← isJavascript, lineUnlessEmpty_statementsOf tight, isTree]
  | error error =>
      obtain ⟨result, _, isResult⟩ := Guarded.exists_compile?_eq input
      rw [isResult] at compiles
      cases result with
      | ok compiled => cases compiles
      | error cause =>
          cases compiles
          refine ⟨cause, rfl, ?_⟩
          unfold evaluate
          rw [isResult]
          cases cause <;> rfl

end Shell

end SprigCompiler
