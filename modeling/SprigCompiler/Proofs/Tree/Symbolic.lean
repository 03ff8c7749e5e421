import SprigCompiler.Proofs.Number.Written
import SprigCompiler.Proofs.Token.Spelling
import SprigCompiler.Proofs.Tree.Construction
import SprigCompiler.Proofs.Tree.Unspanned

/-!
Symbolic expressions determine their trees.

A list starts with a parenthesis and a tag, a string with a quote, and any other leaf is a word
without blanks, parentheses and quotes.  Each of them shows where it ends: a list at the parenthesis
behind its last child, a string at its second quote, and a word at the next blank or parenthesis.
-/

namespace SprigCompiler

inductive NodeLabel where
  | program
  | statement (form : StatementForm)
  | block
  | application (form : ApplicationForm)
  | assignment
  | math (operator : MathOperator)
  | union

namespace NodeLabel

def tag : NodeLabel → String
  | program => "program"
  | statement form => form.tag
  | block => "block"
  | application form => form.tag
  | assignment => "="
  | math operator => operator.sign
  | union => "|"

def ofTag? : String → Option NodeLabel
  | "program" => some program
  | "main" => some (statement .main)
  | "type" => some (statement .type)
  | "let" => some (statement .binding)
  | "fun" => some (statement .function)
  | "return" => some (statement .result)
  | "block" => some block
  | "fun-params" => some (application .functionParameters)
  | "type-params" => some (application .typeParameters)
  | "call" => some (application .call)
  | "new" => some (application .instantiation)
  | "=" => some assignment
  | "+" => some (math .add)
  | "-" => some (math .sub)
  | "*" => some (math .mul)
  | "/" => some (math .div)
  | "|" => some union
  | _ => none

private theorem ofTag?_tag (label : NodeLabel) : ofTag? label.tag = some label := by
  cases label with
  | statement form => cases form <;> rfl
  | application form => cases form <;> rfl
  | math operator => cases operator <;> rfl
  | _ => rfl

private theorem eq_of_tag_eq {label other : NodeLabel} (same : label.tag = other.tag) :
    label = other := by
  have read := ofTag?_tag label
  rw [same, ofTag?_tag] at read
  exact (Option.some.inj read).symm

def node? : NodeLabel → List Node → Option Node
  | program, body => some (.program body ⟨0, 0, 0, 0⟩)
  | statement form, [value] => some (.statement form value ⟨0, 0, 0, 0⟩)
  | block, body => some (.block body ⟨0, 0, 0, 0⟩)
  | application form, head :: arguments => some (.application form head arguments ⟨0, 0, 0, 0⟩)
  | assignment, [left, right] => some (.assignment left right ⟨0, 0, 0, 0⟩)
  | math operator, [left, right] => some (.math operator left right ⟨0, 0, 0, 0⟩)
  | union, members => some (.union members ⟨0, 0, 0, 0⟩)
  | _, _ => none

end NodeLabel

namespace Node

def label? : Node → Option NodeLabel
  | program _ _ => some .program
  | statement form _ _ => some (.statement form)
  | block _ _ => some .block
  | application form _ _ _ => some (.application form)
  | assignment _ _ _ => some .assignment
  | math operator _ _ _ => some (.math operator)
  | union _ _ => some .union
  | identifier _ _ | string _ _ | number _ _ | boolean _ _ => none

/-- Whether a leaf can be told from its text: names are words but for those that booleans and
infinity are written as, strings have no quote, and numbers are numbers. -/
def Legible : Node → Prop
  | identifier name _ => IsWord name ∧ name ≠ "true" ∧ name ≠ "false" ∧ name ≠ "inf"
  | string value _ => '"' ∉ value.toList
  | number value _ => value.isNaN = false
  | _ => True

def ofWord? (word : List Char) : Option Node :=
  if word = "true".toList then some (.boolean true ⟨0, 0, 0, 0⟩)
  else if word = "false".toList then some (.boolean false ⟨0, 0, 0, 0⟩)
  else if word ≠ "inf".toList ∧ word.all Piece.isWordCharacter then
    some (.identifier (String.ofList word) ⟨0, 0, 0, 0⟩)
  else (Decimal.read? word).map (.number · ⟨0, 0, 0, 0⟩)

end Node

def isSymbolCharacter (character : Char) : Bool :=
  character != ' ' && character != '(' && character != ')' && character != '"'

structure Node.Symbol (node : Node) : Prop where
  isSome : node.text.toList ≠ []
  plain : ∀ character ∈ node.text.toList, isSymbolCharacter character = true
  reads : Node.ofWord? node.text.toList = some node.unlocated

variable {node other : Node} {nodes others : List Node} {label : NodeLabel}
  {word another rest more : List Char}

/-- Words are cut off at the first character that they cannot consist of. -/
theorem append_inj_of_ends {condition : Char → Bool}
    (inside : ∀ character ∈ word, condition character = true)
    (otherInside : ∀ character ∈ another, condition character = true)
    (ends : ∀ next ∈ rest.head?, condition next = false)
    (otherEnds : ∀ next ∈ more.head?, condition next = false)
    (same : word ++ rest = another ++ more) : word = another ∧ rest = more := by
  rcases List.append_eq_append_iff.mp same with ⟨between, rfl, rfl⟩ | ⟨between, rfl, rfl⟩
  · cases between with
    | nil => simp
    | cons first between =>
        have isInside := otherInside first (by simp)
        rw [ends first rfl] at isInside
        cases isInside
  · cases between with
    | nil => simp
    | cons first between =>
        have isInside := inside first (by simp)
        rw [otherEnds first rfl] at isInside
        cases isInside

private theorem isSymbolCharacter_of_condition {condition : Char → Bool} {character : Char}
    (excludes : [' ', '(', ')', '"'].all (!condition ·) = true)
    (holds : condition character = true) : isSymbolCharacter character = true := by
  have isOther : ∀ mark ∈ [' ', '(', ')', '"'], character ≠ mark := by
    rintro mark isMark rfl
    have excluded := List.all_eq_true.mp excludes character isMark
    rw [holds] at excluded
    cases excluded
  simp only [List.forall_mem_cons] at isOther
  simp [isSymbolCharacter, isOther]

private theorem isSymbolCharacter_signed (negative : Bool)
    (plain : ∀ character ∈ word, isSymbolCharacter character = true) :
    ∀ character ∈ Decimal.signed negative word, isSymbolCharacter character = true := by
  cases negative with
  | true => exact List.forall_mem_cons.mpr ⟨rfl, plain⟩
  | false => exact plain

namespace Node

/-- A word that is no name and no boolean is read as a number. -/
theorem ofWord?_number
    (noName : word = "inf".toList ∨ ∃ first ∈ word.head?, Piece.isWordCharacter first = false) :
    ofWord? word = (Decimal.read? word).map (.number · ⟨0, 0, 0, 0⟩) := by
  have isWord : ∀ name ∈ ["true", "false"],
      name.toList ≠ "inf".toList ∧ name.toList.head?.all Piece.isWordCharacter = true := by decide
  have isOther : ∀ name ∈ ["true", "false"], word ≠ name.toList := by
    rintro name isName rfl
    rcases noName with isInfinity | ⟨first, isFirst, noWord⟩
    · exact (isWord name isName).1 isInfinity
    · have isLetter := (isWord name isName).2
      rw [isFirst, Option.all_some, noWord] at isLetter
      cases isLetter
  have noWord : ¬(word ≠ "inf".toList ∧ word.all Piece.isWordCharacter = true) := by
    rintro ⟨isFinite, areLetters⟩
    rcases noName with isInfinity | ⟨first, isFirst, noWord⟩
    · exact isFinite isInfinity
    · rw [List.all_eq_true.mp areLetters first (List.mem_of_head? isFirst)] at noWord
      cases noWord
  rw [ofWord?, if_neg (isOther "true" (by decide)), if_neg (isOther "false" (by decide)),
    if_neg noWord]

namespace Symbol

private theorem identifier {name : String} {place : Location}
    (legible : (Node.identifier name place).Legible) : (Node.identifier name place).Symbol := by
  obtain ⟨⟨isSome, isWord⟩, noTrue, noFalse, noInfinity⟩ := legible
  have different {word : String} (other : name ≠ word) : name.toList ≠ word.toList :=
    fun same => other (String.toList_inj.mp same)
  refine ⟨isSome, fun character isMember =>
    isSymbolCharacter_of_condition rfl (isWord character isMember), ?_⟩
  change ofWord? name.toList = _
  rw [ofWord?, if_neg (different noTrue), if_neg (different noFalse),
    if_pos ⟨different noInfinity, List.all_eq_true.mpr isWord⟩, String.ofList_toList]
  rfl

private theorem boolean (value : Bool) (place : Location) : (Node.boolean value place).Symbol := by
  cases value with
  | false =>
      have isText : (Node.boolean false place).text = "false" := rfl
      have isOther : "false".toList ≠ "true".toList := by decide
      refine ⟨?_, ?_, ?_⟩ <;> rw [isText]
      · exact List.cons_ne_nil _ _
      · exact List.all_eq_true.mp rfl
      · exact (if_neg isOther).trans (if_pos rfl)
  | true =>
      have isText : (Node.boolean true place).text = "true" := rfl
      refine ⟨?_, ?_, ?_⟩ <;> rw [isText]
      · exact List.cons_ne_nil _ _
      · exact List.all_eq_true.mp rfl
      · exact if_pos rfl

/-- A number is written as a sign in front of digits or in front of the word for infinity. -/
theorem exists_digits {value : Binary64} (isNumber : value.isNaN = false) : ∃ digits,
    Decimal.write "inf" value = String.ofList (Decimal.signed value.isNegative digits) ∧
      digits ≠ [] ∧ (∀ character ∈ digits, isSymbolCharacter character = true) ∧
      (digits = "inf".toList ∨ ∃ first ∈ digits.head?, Piece.isWordCharacter first = false) := by
  cases isFinite : value.isInfinite with
  | true =>
      refine ⟨"inf".toList, ?_, List.cons_ne_nil _ _, List.all_eq_true.mp rfl, .inl rfl⟩
      unfold Decimal.write
      rw [isNumber, isFinite, if_neg Bool.false_ne_true, if_pos rfl]
  | false =>
      obtain ⟨numeral, isWritten, _⟩ := Decimal.exists_write "inf" isNumber isFinite
      obtain ⟨first, rest, isText, _⟩ := numeral.exists_text
      have areNumbers : ∀ character ∈ numeral.text, Piece.isNumberCharacter character = true := by
        intro character isMember
        rcases numeral.digit_or_point isMember with isDigit | rfl
        · rw [Piece.isNumberCharacter, isDigit, Bool.true_or]
        · rfl
      have isFirst : first ∈ numeral.text.head? := by
        rw [isText]
        rfl
      refine ⟨numeral.text, isWritten, ?_, fun character isMember =>
        isSymbolCharacter_of_condition rfl (areNumbers character isMember),
        .inr ⟨first, isFirst, ?_⟩⟩
      · rw [isText]
        exact List.cons_ne_nil _ _
      · exact Piece.not_word_of_number (areNumbers first (List.mem_of_head? isFirst))

private theorem number {value : Binary64} {place : Location}
    (legible : (Node.number value place).Legible) : (Node.number value place).Symbol := by
  have isNumber : value.isNaN = false := legible
  obtain ⟨digits, isWritten, isSome, plain, noName⟩ := exists_digits isNumber
  have isText : (Node.number value place).text.toList =
      Decimal.signed value.isNegative digits := by
    rw [text, isWritten, String.toList_ofList]
  have isRead := @Decimal.read?_write_of_words "inf" value (by decide +kernel) isNumber
  have signedNoName : Decimal.signed value.isNegative digits = "inf".toList ∨
      ∃ first ∈ (Decimal.signed value.isNegative digits).head?,
        Piece.isWordCharacter first = false := by
    cases value.isNegative with
    | true => exact .inr ⟨'-', rfl, rfl⟩
    | false => exact noName
  refine ⟨?_, ?_, ?_⟩
  · rw [isText]
    cases value.isNegative with
    | true => exact List.cons_ne_nil _ _
    | false => exact isSome
  · rw [isText]
    exact isSymbolCharacter_signed _ plain
  · rw [isText, ofWord?_number signedNoName, ← isText]
    exact congrArg _ isRead

end Symbol

/-- A node with children is a list of them behind its tag. -/
theorem text_of_label (isLabel : node.label? = some label) : node.text.toList =
    '(' :: (label.tag.toList ++ ((textAll node.children).toList ++ [')'])) := by
  cases node <;> cases isLabel
  all_goals simp [text, textAll, children, NodeLabel.tag, String.toList_append]

private theorem isSymbolCharacter_tag (label : NodeLabel) :
    ∀ character ∈ label.tag.toList, isSymbolCharacter character = true := by
  refine List.all_eq_true.mp ?_
  cases label with
  | statement form => cases form <;> rfl
  | application form => cases form <;> rfl
  | math operator => cases operator <;> rfl
  | _ => rfl

/-- A node with children is determined, up to locations, by its label and these. -/
theorem node?_of_label (isLabel : node.label? = some label) :
    label.node? (relocatedAll (fun _ => ⟨0, 0, 0, 0⟩) node.children) = some node.unlocated := by
  cases node <;> cases isLabel
  all_goals rfl

private theorem alike_of_label (isLabel : node.label? = some label)
    (isOther : other.label? = some label)
    (alike : AlikeAll node.children other.children) : node.Alike other := by
  have same := node?_of_label isLabel
  rw [relocatedAll_eq_of_alikeAll alike, node?_of_label isOther] at same
  exact (Option.some.inj same).symm

private theorem string_text (value : String) (place : Location) :
    (Node.string value place).text.toList = '"' :: (value.toList ++ ['"']) := by
  rw [text, String.toList_append, String.toList_append]
  rfl

/-- Whether a node is a list, a string or a word, as the first character of its text tells. -/
def StartsAs (node : Node) (first : Char) : Prop :=
  first = '(' ∧ (∃ label, node.label? = some label) ∨
    first = '"' ∧ (∃ value place, node = .string value place) ∨
    isSymbolCharacter first = true ∧ node.Symbol

private theorem Symbol.exists_first (symbol : node.Symbol) :
    ∃ first behind, node.text.toList = first :: behind ∧ node.StartsAs first := by
  obtain ⟨first, behind, isText⟩ := List.exists_cons_of_ne_nil symbol.isSome
  have plain := symbol.plain first (by rw [isText]; exact List.mem_cons_self)
  exact ⟨first, behind, isText, .inr (.inr ⟨plain, symbol⟩)⟩

private theorem exists_first (legible : node.Legible) :
    ∃ first behind, node.text.toList = first :: behind ∧ node.StartsAs first := by
  have ofLabel (label : NodeLabel) (isLabel : node.label? = some label) := text_of_label isLabel
  cases node with
  | identifier name place => exact (Symbol.identifier legible).exists_first
  | number value place => exact (Symbol.number legible).exists_first
  | boolean value place => exact (Symbol.boolean value place).exists_first
  | string value place =>
      exact ⟨_, _, string_text value place, .inr (.inl ⟨rfl, value, place, rfl⟩)⟩
  | _ => exact ⟨_, _, ofLabel _ rfl, .inl ⟨rfl, _, rfl⟩⟩

/-- Legible nodes whose texts start with the same character are written in the same form. -/
theorem same_form (legible : node.Legible) (otherLegible : other.Legible)
    (same : node.text.toList ++ rest = other.text.toList ++ more) :
    (∃ label otherLabel, node.label? = some label ∧ other.label? = some otherLabel) ∨
      (∃ value place otherValue otherPlace, node = .string value place ∧
        other = .string otherValue otherPlace) ∨
      node.Symbol ∧ other.Symbol := by
  obtain ⟨first, behind, isText, form⟩ := exists_first legible
  obtain ⟨otherFirst, otherBehind, isOtherText, otherForm⟩ := exists_first otherLegible
  rw [isText, isOtherText] at same
  obtain rfl : first = otherFirst := (List.cons.inj same).1
  rcases form with ⟨rfl, label, isLabel⟩ | ⟨rfl, value, place, isString⟩ | ⟨plain, symbol⟩
  · rcases otherForm with ⟨-, otherLabel, isOther⟩ | ⟨differs, -⟩ | ⟨plain, -⟩
    · exact .inl ⟨label, otherLabel, isLabel, isOther⟩
    · cases differs
    · cases plain
  · rcases otherForm with ⟨differs, -⟩ | ⟨-, otherValue, otherPlace, isOther⟩ | ⟨plain, -⟩
    · cases differs
    · exact .inr (.inl ⟨value, place, otherValue, otherPlace, isString, isOther⟩)
    · cases plain
  · rcases otherForm with ⟨rfl, -⟩ | ⟨rfl, -⟩ | ⟨-, otherSymbol⟩
    · cases plain
    · cases plain
    · exact .inr (.inr ⟨symbol, otherSymbol⟩)

/-! ### Whole trees -/

/-- Whether a tree shows where its text ends and is read back from it, up to locations, against
all legible trees. -/
def Distinct (node : Node) : Prop :=
  ∀ (other : Node) (rest more : List Char), (∀ part ∈ listed [other], part.Legible) →
    (∀ next ∈ rest.head?, isSymbolCharacter next = false) →
    (∀ next ∈ more.head?, isSymbolCharacter next = false) →
    node.text.toList ++ rest = other.text.toList ++ more → node.Alike other ∧ rest = more

theorem toList_textAll_cons (node : Node) (nodes : List Node) :
    (textAll (node :: nodes)).toList = ' ' :: (node.text.toList ++ (textAll nodes).toList) := by
  rw [textAll, String.toList_append, String.toList_append]
  rfl

/-- Behind a tag or a child there is a blank or a parenthesis. -/
theorem ends_textAll (nodes : List Node) (rest : List Char) :
    ∀ next ∈ ((textAll nodes).toList ++ ')' :: rest).head?, isSymbolCharacter next = false := by
  cases nodes with
  | nil =>
      rintro _ ⟨⟩
      rfl
  | cons node nodes =>
      rw [toList_textAll_cons]
      rintro _ ⟨⟩
      rfl

/-- Children and the parenthesis behind them are determined by their text. -/
theorem alikeAll_of_textAll (distinct : ∀ node ∈ nodes, node.Distinct)
    (legible : ∀ part ∈ listed others, part.Legible)
    (same : (textAll nodes).toList ++ ')' :: rest = (textAll others).toList ++ ')' :: more) :
    AlikeAll nodes others ∧ rest = more := by
  induction nodes generalizing others with
  | nil =>
      cases others with
      | nil => exact ⟨.nil, (List.cons.inj same).2⟩
      | cons other others =>
          rw [toList_textAll_cons] at same
          exact absurd (List.cons.inj same).1 (by decide)
  | cons node nodes inductionHypothesis =>
      cases others with
      | nil =>
          rw [toList_textAll_cons] at same
          exact absurd (List.cons.inj same).1 (by decide)
      | cons other others =>
          obtain ⟨isFirst, areLater⟩ := List.forall_mem_cons.mp distinct
          have whole : other :: others = [other] ++ others := rfl
          rw [whole, listed_append, List.forall_mem_append] at legible
          rw [toList_textAll_cons, toList_textAll_cons, List.cons_append, List.cons_append,
            List.append_assoc, List.append_assoc] at same
          obtain ⟨alike, same⟩ := isFirst other _ _ legible.1 (ends_textAll _ _)
            (ends_textAll _ _) (List.cons.inj same).2
          obtain ⟨alikeAll, ends⟩ := inductionHypothesis areLater legible.2 same
          exact ⟨.cons alike alikeAll, ends⟩

/-- Lists are determined by their texts if their children are. -/
theorem alike_of_lists {otherLabel : NodeLabel} (isLabel : node.label? = some label)
    (isOther : other.label? = some otherLabel) (distinct : ∀ child ∈ node.children, child.Distinct)
    (legible : ∀ part ∈ listed other.children, part.Legible)
    (same : node.text.toList ++ rest = other.text.toList ++ more) :
    node.Alike other ∧ rest = more := by
  rw [text_of_label isLabel, text_of_label isOther] at same
  simp only [List.cons_append, List.append_assoc, List.nil_append, List.cons.injEq, true_and]
    at same
  obtain ⟨tags, bodies⟩ := append_inj_of_ends (isSymbolCharacter_tag label)
    (isSymbolCharacter_tag otherLabel) (ends_textAll _ _) (ends_textAll _ _) same
  cases NodeLabel.eq_of_tag_eq (String.toList_inj.mp tags)
  obtain ⟨alike, ends⟩ := alikeAll_of_textAll distinct legible bodies
  exact ⟨alike_of_label isLabel isOther alike, ends⟩

private theorem alike_of_strings {value otherValue : String} {place otherPlace : Location}
    (legible : (Node.string value place).Legible)
    (otherLegible : (Node.string otherValue otherPlace).Legible)
    (same : (Node.string value place).text.toList ++ rest =
      (Node.string otherValue otherPlace).text.toList ++ more) :
    (Node.string value place).Alike (.string otherValue otherPlace) ∧ rest = more := by
  have inside {value : String} (noQuote : '"' ∉ value.toList) :
      ∀ character ∈ value.toList, (character != '"') = true :=
    fun character isMember => bne_iff_ne.mpr fun isQuote => noQuote (isQuote ▸ isMember)
  rw [string_text, string_text] at same
  simp only [List.cons_append, List.append_assoc, List.nil_append, List.cons.injEq, true_and]
    at same
  obtain ⟨values, ends⟩ := @append_inj_of_ends _ _ _ _ (· != '"') (inside legible)
    (inside otherLegible) (by simp) (by simp) same
  obtain rfl := String.toList_inj.mp values
  exact ⟨rfl, (List.cons.inj ends).2⟩

private theorem alike_of_symbols (symbol : node.Symbol) (otherSymbol : other.Symbol)
    (ends : ∀ next ∈ rest.head?, isSymbolCharacter next = false)
    (otherEnds : ∀ next ∈ more.head?, isSymbolCharacter next = false)
    (same : node.text.toList ++ rest = other.text.toList ++ more) :
    node.Alike other ∧ rest = more := by
  obtain ⟨words, rests⟩ := append_inj_of_ends symbol.plain otherSymbol.plain ends otherEnds same
  have isRead := symbol.reads
  rw [words, otherSymbol.reads] at isRead
  exact ⟨(Option.some.inj isRead).symm, rests⟩

/-- Legible trees are told apart by their texts. -/
theorem distinct_of_legible (node : Node) (legible : ∀ part ∈ listed [node], part.Legible) :
    node.Distinct := by
  induction node using children_induction with
  | parent node inductionHypothesis =>
      intro other rest more otherLegible ends otherEnds same
      rw [listed_singleton, List.forall_mem_cons] at legible otherLegible
      obtain ⟨label, otherLabel, isLabel, isOther⟩ |
        ⟨value, place, otherValue, otherPlace, rfl, rfl⟩ | ⟨symbol, otherSymbol⟩ :=
        same_form legible.1 otherLegible.1 same
      · have distinct : ∀ child ∈ node.children, child.Distinct := fun child isChild =>
          inductionHypothesis child isChild fun part isPart =>
            legible.2 part (mem_listed_of_mem isChild isPart)
        exact alike_of_lists isLabel isOther distinct otherLegible.2 same
      · exact alike_of_strings legible.1 otherLegible.1 same
      · exact alike_of_symbols symbol otherSymbol ends otherEnds same

/-- Legible trees have the same text exactly when they are equal up to locations. -/
theorem text_eq_iff_alike (legible : ∀ part ∈ listed [node], part.Legible)
    (otherLegible : ∀ part ∈ listed [other], part.Legible) :
    node.text = other.text ↔ node.Alike other := by
  constructor
  · intro same
    have texts : node.text.toList ++ [] = other.text.toList ++ [] := by rw [same]
    exact (distinct_of_legible node legible other [] [] otherLegible nofun nofun texts).1
  · intro alike
    have texts : node.unlocated.text = other.unlocated.text := congrArg text alike
    rwa [unlocated, unlocated, text_relocated, text_relocated] at texts

/-- A name can be written as a boolean is. -/
example (place : Location) :
    (Node.identifier "true" place).text = (Node.boolean true place).text := rfl

end Node

end SprigCompiler
