import SprigCompiler.Proofs.Javascript.Reader

/-!
Values in emitted programs.

A value is read as its normal form wherever it stands, given that the text behind it cannot be taken
for a part of it.  Behind a leaf no plain character may follow, behind an operand no parenthesis
either, and behind a value no operator either.
-/

namespace SprigCompiler.Printed

open Javascript

def Ends (rest : List Char) : Prop := ∀ next ∈ rest.head?, isPlain next = false

def EndsOperand (rest : List Char) : Prop := Ends rest ∧ rest.head? ≠ some '('

def EndsValue (rest : List Char) : Prop := EndsOperand rest ∧ operator? rest = none

theorem ends_cons {next : Char} (noPlain : isPlain next = false) (rest : List Char) :
    Ends (next :: rest) := by
  rintro _ ⟨⟩
  exact noPlain

section Leaves

variable {text rest : List Char}

theorem plain_append (isPlain : ∀ character ∈ text, isPlain character = true) (ends : Ends rest) :
    (text ++ rest).takeWhile Printed.isPlain = text ∧
      (text ++ rest).dropWhile Printed.isPlain = rest :=
  ⟨Piece.takeWhile_append_of_all isPlain ends, Piece.dropWhile_append_of_all isPlain ends⟩

theorem isPlain_of_isWord {name : String} (isWord : IsWord name) :
    ∀ character ∈ name.toList, isPlain character = true := by
  intro character isMember
  rw [isPlain, isWord.2 character isMember, Bool.true_or, Bool.true_or]

private theorem unlocated_valueOf (name : String) (place : Location) :
    (Node.valueOf name place).unlocated = Node.valueOf name nowhere := by
  unfold Node.valueOf
  split_ifs <;> rfl

/-- A word stands for the normal form of a name. -/
theorem plain_of_isWord {name : String} (isWord : IsWord name) (place : Location) :
    plain name.toList = (Node.identifier name place).normalized.unlocated := by
  obtain ⟨first, more, name_eq⟩ := List.exists_cons_of_ne_nil isWord.1
  have isFirst : name.toList.head?.any Piece.isWordCharacter = true := by
    have isLetter := isWord.2 first (name_eq ▸ List.mem_cons_self)
    rw [name_eq]
    exact isLetter
  unfold plain
  rw [if_pos isFirst, String.ofList_toList, Node.normalized, unlocated_valueOf]

private theorem leaf?_plain (isSome : text ≠ [])
    (isPlain : ∀ character ∈ text, isPlain character = true)
    (ends : Ends rest) (fuel : Nat) : leaf? fuel (text ++ rest) = some (plain text, rest) := by
  obtain ⟨taken, dropped⟩ := plain_append isPlain ends
  obtain ⟨first, more, rfl⟩ := List.exists_cons_of_ne_nil isSome
  have noQuote : first ≠ '"' := by
    rintro rfl
    exact Bool.noConfusion (isPlain '"' List.mem_cons_self)
  rw [List.cons_append] at taken dropped ⊢
  rw [leaf?, if_neg noQuote, taken, dropped]

private theorem isPlain_signed (negative : Bool) {text : List Char}
    (isPlain : ∀ character ∈ text, isPlain character = true) :
    ∀ character ∈ Decimal.signed negative text, Printed.isPlain character = true := by
  unfold Decimal.signed
  cases negative with
  | true => exact List.forall_mem_cons.mpr ⟨rfl, isPlain⟩
  | false => exact isPlain

private theorem plain_of_read? {value : Binary64}
    (noWord : ∀ first ∈ text.head?, Piece.isWordCharacter first = false)
    (isRead : Decimal.read? text = some value) : plain text = .number value nowhere := by
  have isOther : ¬text.head?.any Piece.isWordCharacter = true := by
    intro isWord
    obtain ⟨first, isFirst, isWord⟩ := (Option.any_eq_true _ _).mp isWord
    rw [noWord first isFirst] at isWord
    cases isWord
  unfold plain
  rw [if_neg isOther, isRead, Option.getD_some]

private theorem plain_write_finite {value : Binary64} (isNumber : value.isNaN = false)
    (isFinite : value.isInfinite = false) :
    (Decimal.write "Infinity" value).toList ≠ [] ∧
      (∀ character ∈ (Decimal.write "Infinity" value).toList, isPlain character = true) ∧
      plain (Decimal.write "Infinity" value).toList = .number value nowhere := by
  have isRead := Decimal.read?_write isNumber
  obtain ⟨numeral, isWritten, _⟩ := Decimal.exists_write "Infinity" isNumber isFinite
  obtain ⟨first, rest, text_eq, isDigit⟩ := numeral.exists_text
  have isDigits : ∀ character ∈ numeral.text, isPlain character = true := by
    intro character isMember
    rcases numeral.digit_or_point isMember with isDigit | rfl
    · rw [isPlain, Piece.isNumberCharacter, isDigit, Bool.true_or, Bool.or_true, Bool.true_or]
    · rfl
  have isSome : Decimal.signed value.isNegative numeral.text ≠ [] := by
    rw [text_eq]
    cases value.isNegative <;> exact List.cons_ne_nil _ _
  have noWord : ∀ first ∈ (Decimal.signed value.isNegative numeral.text).head?,
      Piece.isWordCharacter first = false := by
    rw [text_eq]
    cases value.isNegative with
    | true =>
        rintro _ ⟨⟩
        rfl
    | false =>
        rintro _ ⟨⟩
        refine Piece.not_word_of_number ?_
        rw [Piece.isNumberCharacter, isDigit, Bool.true_or]
  rw [isWritten, String.toList_ofList] at isRead ⊢
  exact ⟨isSome, isPlain_signed _ isDigits, plain_of_read? noWord isRead⟩

private theorem plain_write_infinite {value : Binary64} (isNumber : value.isNaN = false)
    (isInfinite : value.isInfinite = true) :
    (Decimal.write "Infinity" value).toList ≠ [] ∧
      (∀ character ∈ (Decimal.write "Infinity" value).toList, isPlain character = true) ∧
      plain (Decimal.write "Infinity" value).toList = .number value nowhere := by
  have isRead := Decimal.read?_write isNumber
  have isWritten : Decimal.write "Infinity" value =
      String.ofList (Decimal.signed value.isNegative "Infinity".toList) := by
    unfold Decimal.write
    rw [isNumber, isInfinite, if_neg Bool.false_ne_true, if_pos rfl]
  have isLetters : ∀ character ∈ "Infinity".toList, isPlain character = true :=
    List.all_eq_true.mp (by decide)
  have value_eq := value.ofMagnitude_magnitude
  rw [show value.magnitude = _ from of_decide_eq_true isInfinite] at value_eq
  rw [isWritten, String.toList_ofList] at isRead ⊢
  refine ⟨?_, isPlain_signed _ isLetters, ?_⟩
  · cases value.isNegative <;> exact List.cons_ne_nil _ _
  · cases isNegative : value.isNegative with
    | true =>
        rw [isNegative] at isRead
        refine plain_of_read? ?_ isRead
        rintro _ ⟨⟩
        rfl
    | false =>
        rw [isNegative] at value_eq
        rw [← value_eq]
        rfl

/-- A written number is a run of plain characters that stands for the number. -/
theorem plain_write {value : Binary64} (isNumber : value.isNaN = false) :
    (Decimal.write "Infinity" value).toList ≠ [] ∧
      (∀ character ∈ (Decimal.write "Infinity" value).toList, isPlain character = true) ∧
      plain (Decimal.write "Infinity" value).toList = .number value nowhere := by
  cases isInfinite : value.isInfinite with
  | false => exact plain_write_finite isNumber isInfinite
  | true => exact plain_write_infinite isNumber isInfinite

end Leaves

def StartsLeaf (text : String) : Prop :=
  ∃ first rest, text.toList = first :: rest ∧ (first = '"' ∨ isPlain first = true)

theorem StartsLeaf.ne {text : String} (starts : StartsLeaf text) {other : Char}
    (isOther : other ≠ '"' ∧ isPlain other = false) (rest : List Char) :
    (text.toList ++ rest).head? ≠ some other := by
  obtain ⟨first, more, text_eq, isFirst⟩ := starts
  rw [text_eq]
  rintro ⟨⟩
  rcases isFirst with isQuote | isPlain
  · exact isOther.1 isQuote
  · rw [isOther.2] at isPlain
    cases isPlain

private theorem startsLeaf_of_plain {text : String} (isSome : text.toList ≠ [])
    (isPlain : ∀ character ∈ text.toList, isPlain character = true) : StartsLeaf text := by
  obtain ⟨first, rest, text_eq⟩ := List.exists_cons_of_ne_nil isSome
  exact ⟨first, rest, text_eq, Or.inr (isPlain first (text_eq ▸ List.mem_cons_self))⟩

/-- A leaf is read as its normal form. -/
theorem leaf?_text {node : Node} (leaf : Shape.Leaf node) (depth : Nat) :
    ∃ text, node.text? depth = some text ∧ StartsLeaf text ∧
      ∃ least, ∀ fuel, least ≤ fuel → ∀ rest, Ends rest →
        leaf? fuel (text.toList ++ rest) = some (node.normalized.unlocated, rest) := by
  cases leaf with
  | @name name place isWord =>
      have isPlain := isPlain_of_isWord isWord
      refine ⟨name, rfl, startsLeaf_of_plain isWord.1 isPlain, 0, fun fuel _ rest ends => ?_⟩
      rw [leaf?_plain isWord.1 isPlain ends, plain_of_isWord isWord place]
  | string value place =>
      refine ⟨Quoted.text value, rfl, ?_, value.toList.length + 1, fun fuel isEnough rest _ => ?_⟩
      · exact ⟨'"', _, String.toList_ofList, Or.inl rfl⟩
      · have isInside := inside?_flatMap isUnprintable rest value.toList isEnough
        unfold Quoted.text Quoted.enclose
        rw [String.toList_ofList, List.cons_append, List.append_assoc, leaf?,
          if_pos (show Quoted.textMark = '"' from rfl)]
        change (inside? fuel
          (value.toList.flatMap (Quoted.escape isUnprintable '"') ++ '"' :: rest)).map _ = _
        rw [isInside, Option.map_some, String.ofList_toList]
        rfl
  | @number value place isNumber =>
      obtain ⟨isSome, isPlain, isValue⟩ := plain_write isNumber
      refine ⟨_, rfl, startsLeaf_of_plain isSome isPlain, 0, fun fuel _ rest ends => ?_⟩
      rw [leaf?_plain isSome isPlain ends, isValue]
      rfl
  | boolean value place =>
      have isLetters : ∀ character ∈ (if value then "true" else "false").toList,
          isPlain character = true := by
        cases value <;> exact List.all_eq_true.mp (by decide)
      have isSome : (if value then "true" else "false").toList ≠ [] := by
        cases value <;> decide
      refine ⟨_, rfl, startsLeaf_of_plain isSome isLetters, 0, fun fuel _ rest ends => ?_⟩
      rw [leaf?_plain isSome isLetters ends]
      cases value <;> rfl

private theorem arguments?_cons {fuel : Nat} {text rest behind : List Char} {first : Node}
    {others : List Node} (noClosing : text.head? ≠ some ')')
    (isLeaf : leaf? fuel (if text.head? = some ',' then text.drop 2 else text) = some (first, rest))
    (areOthers : arguments? fuel rest = some (others, behind)) :
    arguments? (fuel + 1) text = some (first :: others, behind) := by
  rw [arguments?, if_neg noClosing, isLeaf]
  simp only [Option.bind_eq_bind, Option.bind_some, areOthers]
  rfl

/-- Arguments are read as their normal forms, up to the closing parenthesis. -/
theorem arguments?_text {arguments : List Node}
    (leaves : ∀ argument ∈ arguments, Shape.Leaf argument) (depth : Nat) (isFirst : Bool) :
    ∃ text, Node.arguments? depth isFirst arguments = some text ∧
      (isFirst = false → ∀ rest, Ends (text.toList ++ ')' :: rest)) ∧
      ∃ least, ∀ fuel, least ≤ fuel → ∀ rest,
        arguments? fuel (text.toList ++ ')' :: rest) =
          some ((Node.normalizedAll arguments).map Node.unlocated, rest) := by
  induction arguments generalizing isFirst with
  | nil =>
      refine ⟨"", rfl, fun _ rest => ends_cons rfl rest, 1, fun fuel isEnough rest => ?_⟩
      obtain ⟨fuel, rfl⟩ := Nat.exists_eq_add_of_le' isEnough
      rfl
  | cons argument others inductionHypothesis =>
      rw [List.forall_mem_cons] at leaves
      obtain ⟨text, isText, starts, leastFirst, isRead⟩ := leaf?_text leaves.1 depth
      obtain ⟨behind, isBehind, ends, leastOthers, areRead⟩ := inductionHypothesis leaves.2 false
      refine ⟨(if isFirst then "" else ", ") ++ text ++ behind, ?_, ?_,
        max leastFirst leastOthers + 1, fun fuel isEnough rest => ?_⟩
      · simp only [Node.arguments?, isText, isBehind, Option.bind_eq_bind, Option.bind_some]
        rfl
      · rintro rfl rest
        simpa using ends_cons (show isPlain ',' = false from rfl) _
      · obtain ⟨fuel, rfl⟩ := Nat.exists_eq_succ_of_ne_zero (show fuel ≠ 0 by omega)
        have isLeaf := isRead fuel (by omega) (behind.toList ++ ')' :: rest) (ends rfl rest)
        have areOthers := areRead fuel (by omega) rest
        have starts := fun other => @starts.ne text other
        cases isFirst with
        | true =>
            have noClosing := starts ')' (by decide) (behind.toList ++ ')' :: rest)
            have noComma := starts ',' (by decide) (behind.toList ++ ')' :: rest)
            simp only [if_true, String.empty_append, String.toList_append, List.append_assoc]
            exact arguments?_cons noClosing (by rw [if_neg noComma, isLeaf]) areOthers
        | false =>
            simp only [Bool.false_eq_true, if_false, String.toList_append, List.append_assoc]
            exact arguments?_cons (fun same => absurd (Option.some.inj same) (by decide)) isLeaf
              areOthers

section Values

variable {fuel : Nat} {text rest behind : List Char} {left right : Node}
  {inner? : List Char → Option (Node × List Char)}

private theorem operand?_leaf (noParenthesis : text.head? ≠ some '(')
    (isLeaf : leaf? fuel text = some (left, rest)) (ends : rest.head? ≠ some '(') :
    operand? fuel inner? text = some (left, rest) := by
  rw [operand?, if_neg noParenthesis, isLeaf]
  simp only [Option.bind_eq_bind, Option.bind_some, if_neg ends]
  rfl

private theorem operand?_call {arguments : List Node} (noParenthesis : text.head? ≠ some '(')
    (isLeaf : leaf? fuel text = some (left, '(' :: rest))
    (areArguments : arguments? fuel rest = some (arguments, behind)) :
    operand? fuel inner? text = some (.application .call left arguments nowhere, behind) := by
  rw [operand?, if_neg noParenthesis, isLeaf]
  simp only [Option.bind_eq_bind, Option.bind_some, List.head?_cons, if_true, List.tail_cons,
    areArguments]
  rfl

private theorem operand?_parentheses (isValue : inner? text = some (left, ')' :: rest)) :
    operand? fuel inner? ('(' :: text) = some (left, rest) := by
  rw [operand?, if_pos (show ('(' :: text).head? = some '(' from rfl), List.tail_cons, isValue]
  rfl

private theorem value?_operand (isLeft : operand? fuel (value? fuel) text = some (left, rest))
    (noOperator : operator? rest = none) : value? (fuel + 1) text = some (left, rest) := by
  rw [value?, isLeft]
  simp only [Option.bind_eq_bind, Option.bind_some, noOperator]
  rfl

private theorem value?_math {operator : MathOperator}
    (isLeft : operand? fuel (value? fuel) text = some (left, rest))
    (isOperator : operator? rest = some operator)
    (isRight : operand? fuel (value? fuel) (rest.drop 3) = some (right, behind)) :
    value? (fuel + 1) text = some (.math operator left right nowhere, behind) := by
  rw [value?, isLeft]
  simp only [Option.bind_eq_bind, Option.bind_some, isOperator, isRight]
  rfl

private theorem operator?_sign (operator : MathOperator) (rest : List Char) :
    operator? ((" " ++ operator.sign ++ " ").toList ++ rest) = some operator ∧
      ((" " ++ operator.sign ++ " ").toList ++ rest).drop 3 = rest ∧
      EndsOperand ((" " ++ operator.sign ++ " ").toList ++ rest) := by
  have ends : ∀ more, EndsOperand (' ' :: more) := fun more =>
    ⟨ends_cons rfl more, fun same => absurd (Option.some.inj same) (by decide)⟩
  cases operator <;> exact ⟨rfl, rfl, ends _⟩

end Values

/-- Whether the text of a node is read as its normal form, as an operand and as a value. -/
def ReadsValue (depth : Nat) (node : Node) : Prop :=
  ∃ text, node.text? depth = some text ∧ ∃ least, ∀ fuel, least ≤ fuel →
    (∀ rest, EndsOperand rest →
      operand? fuel (value? fuel) ((Node.inParentheses node.isMath text).toList ++ rest) =
        some (node.normalized.unlocated, rest)) ∧
    ∀ rest, EndsValue rest →
      value? fuel (text.toList ++ rest) = some (node.normalized.unlocated, rest)

/-- What is read as an operand without parentheses is a value. -/
theorem ReadsValue.of_operand {depth : Nat} {node : Node} {text : String} {least : Nat}
    (isText : node.text? depth = some text) (noMath : node.isMath = false)
    (isRead : ∀ fuel, least ≤ fuel → ∀ rest, EndsOperand rest →
      operand? fuel (value? fuel) (text.toList ++ rest) =
        some (node.normalized.unlocated, rest)) : ReadsValue depth node := by
  refine ⟨text, isText, least + 1, fun fuel isEnough => ⟨fun rest ends => ?_, fun rest ends => ?_⟩⟩
  · rw [noMath]
    exact isRead fuel (by omega) rest ends
  · obtain ⟨fuel, rfl⟩ := Nat.exists_eq_succ_of_ne_zero (show fuel ≠ 0 by omega)
    exact value?_operand (isRead fuel (by omega) rest ends.1) ends.2

private theorem readsValue_leaf {node : Node} (leaf : Shape.Leaf node) (depth : Nat) :
    ReadsValue depth node := by
  obtain ⟨text, isText, starts, least, isRead⟩ := leaf?_text leaf depth
  have noMath : node.isMath = false := by cases leaf <;> rfl
  refine @ReadsValue.of_operand _ _ _ least isText noMath fun fuel isEnough rest ends => ?_
  have noParenthesis := @starts.ne text '(' (by decide) rest
  exact operand?_leaf noParenthesis (isRead fuel isEnough rest ends.1) ends.2

theorem unlocated_application (form : ApplicationForm) (head : Node) (arguments : List Node)
    (place : Location) : (Node.application form head arguments place).unlocated =
      .application form head.unlocated (arguments.map Node.unlocated) nowhere := by
  unfold Node.unlocated
  rw [Node.relocated, Node.relocatedAll_eq_map]
  rfl

theorem unlocated_block (body : List Node) (place : Location) :
    (Node.block body place).unlocated = .block (body.map Node.unlocated) nowhere := by
  unfold Node.unlocated
  rw [Node.relocated, Node.relocatedAll_eq_map]
  rfl

private theorem readsValue_call {name : String} {arguments : List Node} {place extent : Location}
    (isWord : IsWord name) (leaves : ∀ argument ∈ arguments, Shape.Leaf argument) (depth : Nat) :
    ReadsValue depth (.application .call (.identifier name place) arguments extent) := by
  obtain ⟨text, isText, _, least, areRead⟩ := arguments?_text leaves depth true
  have isPlain := isPlain_of_isWord isWord
  have whole : (Node.application .call (.identifier name place) arguments extent).text? depth =
      some (name ++ "(" ++ text ++ ")") := by
    simp only [Node.text?, ApplicationForm.lead?, isText, Option.bind_eq_bind, Option.bind_some,
      String.empty_append]
    rfl
  refine @ReadsValue.of_operand _ _ _ least whole rfl fun fuel isEnough rest ends => ?_
  have isLeaf := leaf?_plain isWord.1 isPlain
    (ends_cons (show Printed.isPlain '(' = false from rfl) (text.toList ++ ')' :: rest)) fuel
  have starts := startsLeaf_of_plain isWord.1 isPlain
  have noParenthesis := @starts.ne name '(' (by decide) ('(' :: (text.toList ++ ')' :: rest))
  have isCall := @operand?_call fuel _ _ _ _ (value? fuel) _ noParenthesis isLeaf
    (areRead fuel isEnough rest)
  simp only [String.toList_append, List.append_assoc]
  rw [Node.normalized, unlocated_application, ← plain_of_isWord isWord place]
  exact isCall

private theorem readsValue_math {operator : MathOperator} {left right : Node} {place : Location}
    {depth : Nat} (first : ReadsValue depth left) (second : ReadsValue depth right) :
    ReadsValue depth (.math operator left right place) := by
  obtain ⟨front, isFront, leastFront, readsFront⟩ := first
  obtain ⟨behind, isBehind, leastBehind, readsBehind⟩ := second
  let text := Node.inParentheses left.isMath front ++ (" " ++ operator.sign ++ " ") ++
    Node.inParentheses right.isMath behind
  have whole : (Node.math operator left right place).text? depth = some text := by
    simp only [Node.text?, isFront, isBehind, Option.bind_eq_bind, Option.bind_some, text,
      String.append_assoc]
    rfl
  have isValue : ∀ fuel, max leastFront leastBehind + 1 ≤ fuel → ∀ rest, EndsValue rest →
      value? fuel (text.toList ++ rest) =
        some ((Node.math operator left right place).normalized.unlocated, rest) := by
    intro fuel isEnough rest ends
    obtain ⟨fuel, rfl⟩ := Nat.exists_eq_succ_of_ne_zero (show fuel ≠ 0 by omega)
    obtain ⟨isOperator, isDropped, endsFirst⟩ := operator?_sign operator
      ((Node.inParentheses right.isMath behind).toList ++ rest)
    have isLeft := (readsFront fuel (by omega)).1 _ endsFirst
    have isRight := (readsBehind fuel (by omega)).1 rest ends.1
    rw [← isDropped] at isRight
    have text_eq : text.toList ++ rest = (Node.inParentheses left.isMath front).toList ++
        ((" " ++ operator.sign ++ " ").toList ++
          ((Node.inParentheses right.isMath behind).toList ++ rest)) := by
      simp only [text, String.toList_append, List.append_assoc]
    rw [text_eq]
    exact value?_math isLeft isOperator isRight
  refine ⟨text, whole, max leastFront leastBehind + 1,
    fun fuel isEnough => ⟨fun rest ends => ?_, isValue fuel isEnough⟩⟩
  have endsInside : EndsValue (')' :: rest) :=
    ⟨⟨ends_cons rfl rest, fun same => absurd (Option.some.inj same) (by decide)⟩, rfl⟩
  have text_eq : (Node.inParentheses true text).toList ++ rest =
      '(' :: (text.toList ++ ')' :: rest) := by
    simp only [Node.inParentheses, if_true, String.toList_append, List.append_assoc]
    rfl
  rw [show (Node.math operator left right place).isMath = true from rfl, text_eq]
  exact operand?_parentheses (isValue fuel isEnough _ endsInside)

/-- A value is read as its normal form. -/
theorem value?_text {node : Node} (shape : Shape.Value node) (depth : Nat) :
    ReadsValue depth node := by
  induction shape with
  | leaf leaf => exact readsValue_leaf leaf depth
  | call isWord leaves => exact readsValue_call isWord leaves depth
  | math _ _ first second => exact readsValue_math first second

end SprigCompiler.Printed
