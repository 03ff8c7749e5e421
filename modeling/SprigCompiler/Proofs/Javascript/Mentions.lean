import SprigCompiler.Proofs.Javascript.Arithmetic
import SprigCompiler.Proofs.Javascript.Identification
import SprigCompiler.Proofs.Javascript.Scripts

/-!
What JavaScript mentions, and values as expressions.

Names and strings are emitted as they are.  A value is an expression of strict code, provided that
strict mode allows the names that it mentions and that no null character stands in front of a digit
in a string.
-/

namespace SprigCompiler

namespace Javascript

inductive Mention where
  | declared (name : String)
  | used (name : String)
  | string (value : String)
  | parameters (nodes : List Node)

/-- What strict mode asks of a mention.  The two values are no names, but stand for themselves. -/
def Mention.Legal : Mention → Prop
  | declared name => IsBindable name
  | used name => name ∉ reservedWords ∨ name ∈ ["true", "false"]
  | string value => nulBeforeDigit isUnprintable value.toList = false
  | parameters nodes => (nodes.filterMap Node.name?).Nodup

def Mention.Plain : Mention → Prop
  | parameters nodes => ∀ node ∈ nodes, node.kind ∉ NodeKind.literals
  | declared _ | used _ | string _ => True

instance : DecidablePred Mention.Legal
  | .declared name => inferInstanceAs (Decidable (IsBindable name))
  | .used name => inferInstanceAs (Decidable (name ∉ reservedWords ∨ name ∈ ["true", "false"]))
  | .string value => inferInstanceAs (Decidable (nulBeforeDigit isUnprintable value.toList = false))
  | .parameters nodes => inferInstanceAs (Decidable (nodes.filterMap Node.name?).Nodup)

instance : DecidablePred Mention.Plain
  | .parameters nodes =>
      inferInstanceAs (Decidable (∀ node ∈ nodes, node.kind ∉ NodeKind.literals))
  | .declared _ | .used _ | .string _ => .isTrue trivial

end Javascript

open Javascript

namespace Node

def header : Node → List Mention
  | application _ head parameters _ =>
      .parameters parameters :: ((head :: parameters).filterMap name?).map .declared
  | node => node.name?.toList.map .declared

mutual
def mentions : Node → List Mention
  | program body _ => mentionsAmong body
  | block body _ => mentionsAmong body
  | identifier name _ => [.used name]
  | statement .type _ _ => []
  | statement .binding (assignment left right _) _ => left.header ++ mentions right
  | statement .function (assignment left right _) _ => left.header ++ mentions right
  | statement _ value _ => mentions value
  | application form head arguments _ =>
      if form.lead?.isNone then [] else mentions head ++ mentionsAmong arguments
  | assignment left right _ => mentions left ++ mentions right
  | math _ left right _ => mentions left ++ mentions right
  | union _ _ => []
  | string value _ => [.string value]
  | number _ _ => []
  | boolean _ _ => []

def mentionsAmong : List Node → List Mention
  | [] => []
  | node :: rest => mentions node ++ mentionsAmong rest
end

end Node

namespace Javascript

def isPlainInString (character : Char) : Bool :=
  !(['"', '\\', '\n', '\r'].contains character)

section Strings

variable {text : List Char}

private theorem insideString?_plain (plain : ∀ character ∈ text, isPlainInString character = true)
    (more : List Char) :
    insideString? '"' false (text ++ more) =
      (insideString? '"' false more).map fun found => (text ++ found.1, found.2) := by
  induction text with
  | nil => exact Option.map_id'.symm
  | cons first rest inductionHypothesis =>
      obtain ⟨isPlain, others⟩ := List.forall_mem_cons.mp plain
      simp only [isPlainInString, List.contains_cons, Bool.not_or, Bool.and_eq_true,
        Bool.not_eq_true', beq_eq_false_iff_ne, List.contains_nil, Bool.not_false, and_true]
        at isPlain
      obtain ⟨noQuote, noBackslash, noNewline, noReturn⟩ := isPlain
      rw [List.cons_append, insideString?, if_neg fun both => noQuote both.1,
        if_neg (not_or.mpr ⟨noNewline, noReturn⟩), beq_false_of_ne noBackslash, Bool.false_and,
        inductionHypothesis others, Option.map_map]
      rfl

/-- Behind a backslash, any character that does not end the line stands in the string. -/
theorem insideString?_backslash {letter : Char} (noBreak : ¬(letter = '\n' ∨ letter = '\r'))
    (more : List Char) :
    insideString? '"' false ('\\' :: letter :: more) =
      (insideString? '"' false more).map fun found => ('\\' :: letter :: found.1, found.2) := by
  have isBackslash : insideString? '"' false ('\\' :: letter :: more) =
      (insideString? '"' true (letter :: more)).map fun found => ('\\' :: found.1, found.2) := rfl
  rw [isBackslash, insideString?, if_neg fun both => Bool.noConfusion both.2, if_neg noBreak,
    Bool.not_true, Bool.and_false, Option.map_map]
  rfl

theorem isPlainInString_code (number : Nat) :
    ∀ character ∈ '\x7b' :: (Nat.toDigits 16 number ++ ['\x7d']),
      isPlainInString character = true := by
  have isPlain : ∀ digit : Fin 16, isPlainInString digit.val.digitChar = true := by decide
  rw [List.forall_mem_cons, List.forall_mem_append, List.forall_mem_singleton]
  refine ⟨rfl, fun digit isMember => ?_, rfl⟩
  obtain ⟨value, isDigit, rfl⟩ := digit_of_mem_toDigits number isMember
  exact isPlain ⟨value, isDigit⟩

/-- A written character stands in the string as a whole. -/
theorem insideString?_escape (hidden : Char → Bool) (character : Char) (more : List Char) :
    insideString? '"' false (Quoted.escape hidden '"' character ++ more) =
      (insideString? '"' false more).map fun found =>
        (Quoted.escape hidden '"' character ++ found.1, found.2) := by
  unfold Quoted.escape
  cases hasEscape : Quoted.shortEscape? '"' character with
  | some letter =>
      refine insideString?_backslash ?_ more
      rintro (rfl | rfl)
      · rcases letter_of_shortEscape hasEscape with ⟨_, isZero⟩ | ⟨_, _, noLetter⟩
        · cases isZero
        · cases noLetter
      · rcases letter_of_shortEscape hasEscape with ⟨_, isZero⟩ | ⟨_, _, noLetter⟩
        · cases isZero
        · cases noLetter
  | none =>
      dsimp only
      split
      · have isCode := insideString?_plain (isPlainInString_code character.toNat) more
        have noBreak : ¬('u' = '\n' ∨ 'u' = '\r') := by decide
        rw [Quoted.codeEscape, List.cons_append, List.cons_append, insideString?_backslash noBreak,
          isCode, Option.map_map]
        rfl
      · refine @insideString?_plain [character] ?_ more
        rw [List.forall_mem_singleton]
        rw [← Bool.not_eq_false]
        intro noPlain
        simp only [isPlainInString, Bool.not_eq_false', List.contains_iff_mem, List.mem_cons,
          List.not_mem_nil, or_false] at noPlain
        rcases noPlain with rfl | rfl | rfl | rfl <;> cases hasEscape

private theorem separates_quoted (value : String) :
    Separates (Quoted.text value).toList [.string (Quoted.text value).toList] := by
  have inside (characters more : List Char) :
      insideString? '"' false
        (characters.flatMap (Quoted.escape isUnprintable '"') ++ '"' :: more) =
          some (characters.flatMap (Quoted.escape isUnprintable '"'), more) := by
    induction characters with
    | nil => rfl
    | cons character others inductionHypothesis =>
        rw [List.flatMap_cons, List.append_assoc, insideString?_escape, inductionHypothesis]
        rfl
  intro more
  unfold Quoted.text
  rw [String.toList_ofList]
  unfold Quoted.enclose
  have isToken : token? Quoted.textMark
      (value.toList.flatMap (Quoted.escape isUnprintable '"') ++ '"' :: more) =
        some (some (.string (Quoted.enclose isUnprintable '"' value.toList)), more) := by
    change (insideString? '"' false _).map _ = _
    rw [inside, Option.map_some]
    rfl
  rw [List.cons_append, List.append_assoc, List.singleton_append]
  exact tokens?_cons isToken

end Strings

/-- Whether a node has a text that is read as an expression all of whose strings are literals. -/
def Expresses (phrase : Phrase) (depth : Nat) (node : Node) : Prop :=
  ∃ text tree, node.text? depth = some text ∧ Spells phrase text tree ∧ tree.Readable

private theorem name_expressed {name : String} (isWord : IsWord name)
    (legal : (Mention.used name).Legal) :
    ∃ tree : Expression, Spells .primary name tree ∧ tree.Readable := by
  rcases legal with isName | isValue
  · exact ⟨_, .name isName isWord.1 isWord.2, List.forall_mem_nil _⟩
  · rcases List.mem_pair.mp isValue with rfl | rfl
    · exact ⟨_, .boolean true, List.forall_mem_nil _⟩
    · exact ⟨_, .boolean false, List.forall_mem_nil _⟩

/-- A minus in front of a text that starts with no sign of its own negates what the text spells. -/
theorem Spells.negative {first : Char} {rest : List Char} {tree : Expression}
    (written : Spells .unary (String.ofList (first :: rest)) tree) (noMinus : first ≠ '-')
    (noEquals : first ≠ '=') :
    Spells .unary (String.ofList ('-' :: first :: rest)) (.negative tree) := by
  obtain ⟨tokens, lexes, derivation, single⟩ := written
  refine ⟨.minus :: tokens, fun more breaks => ?_, .negative derivation, .cons (by decide) single⟩
  have isRest := lexes more breaks
  rw [String.toList_ofList, List.cons_append] at isRest
  rw [String.toList_ofList, List.cons_append, List.cons_append,
    tokens?_cons (token?_minus noMinus noEquals), isRest, Option.map_map]
  rfl

private theorem number_expressed {value : Binary64} (isNumber : value.isNaN = false) :
    ∃ tree : Expression, Spells .unary (Decimal.write "Infinity" value) tree ∧ tree.Readable := by
  cases isInfinite : value.isInfinite with
  | false =>
      refine ⟨_, .number isNumber isInfinite, ?_⟩
      unfold Expression.ofNumber
      split <;> exact List.forall_mem_nil _
  | true =>
      have isName : Spells .unary "Infinity" (.name "Infinity".toList) := .unary_of_primary
        (.name (by decide +kernel) (by decide) (List.all_eq_true.mp rfl))
      have isWritten : Decimal.write "Infinity" value =
          String.ofList (Decimal.signed value.isNegative "Infinity".toList) := by
        unfold Decimal.write
        rw [isNumber, isInfinite, if_neg Bool.false_ne_true, if_pos rfl]
      rw [isWritten]
      cases value.isNegative with
      | true => exact ⟨_, isName.negative (by decide) (by decide), List.forall_mem_nil _⟩
      | false => exact ⟨_, isName, List.forall_mem_nil _⟩

private theorem leaf_expressed {node : Node} (leaf : Shape.Leaf node)
    (legal : ∀ mention ∈ node.mentions, mention.Legal) (depth : Nat) :
    Expresses .unary depth node := by
  cases leaf with
  | name isWord =>
      obtain ⟨tree, spells, readable⟩ := name_expressed isWord (legal _ List.mem_cons_self)
      exact ⟨_, tree, rfl, spells.unary_of_primary, readable⟩
  | string value place =>
      have isLiteral : IsLiteral (Quoted.text value).toList := by
        have isRead := readLiteral?_enclose isUnprintable value.toList []
        rw [if_neg (by rw [legal _ List.mem_cons_self]; exact Bool.false_ne_true),
          List.append_nil] at isRead
        refine ⟨value.toList, ?_⟩
        unfold Quoted.text
        rw [String.toList_ofList]
        exact isRead
      refine ⟨_, .string (Quoted.text value).toList, rfl, .unary_of_primary
        ⟨_, (separates_quoted value).lexes, .leaf (.string _),
          .cons ⟨Token.noConfusion, Token.noConfusion⟩ singleSigns_nil⟩,
        List.forall_mem_singleton.mpr isLiteral⟩
  | number isNumber =>
      obtain ⟨tree, spells, readable⟩ := number_expressed isNumber
      exact ⟨_, tree, rfl, spells, readable⟩
  | boolean value place =>
      exact ⟨_, _, rfl, .unary_of_primary (.boolean value), List.forall_mem_nil _⟩

private theorem row_expressed {arguments : List Node}
    (leaves : ∀ argument ∈ arguments, Shape.Leaf argument)
    (legal : ∀ mention ∈ Node.mentionsAmong arguments, mention.Legal) (depth : Nat)
    (isFirst : Bool) :
    ∃ text trees, Node.arguments? depth isFirst arguments = some text ∧
      SpellsRow isFirst text trees ∧ ∀ written ∈ stringsAmong trees, IsLiteral written := by
  induction arguments generalizing isFirst with
  | nil => exact ⟨"", [], rfl, spellsRow_nil isFirst, List.forall_mem_nil _⟩
  | cons argument rest inductionHypothesis =>
      rw [List.forall_mem_cons] at leaves
      rw [Node.mentionsAmong, List.forall_mem_append] at legal
      obtain ⟨text, tree, isText, spells, readable⟩ := leaf_expressed leaves.1 legal.1 depth
      obtain ⟨others, trees, areOthers, row, literals⟩ :=
        inductionHypothesis leaves.2 legal.2 false
      refine ⟨_, tree :: trees, ?_, .cons spells.sum_of_unary row isFirst,
        List.forall_mem_append.mpr ⟨readable, literals⟩⟩
      simp [Node.arguments?, isText, areOthers, rowText]

private theorem call_expressed {name : String} {arguments : List Node} {place extent : Location}
    (isWord : IsWord name) (leaves : ∀ argument ∈ arguments, Shape.Leaf argument)
    (legal : ∀ mention ∈
      (Node.application .call (.identifier name place) arguments extent).mentions, mention.Legal)
    (depth : Nat) :
    Expresses .unary depth (.application .call (.identifier name place) arguments extent) := by
  have parts : (∀ mention ∈ (Node.identifier name place).mentions, mention.Legal) ∧
      ∀ mention ∈ Node.mentionsAmong arguments, mention.Legal := List.forall_mem_append.mp legal
  obtain ⟨callee, spells, readable⟩ := name_expressed isWord (parts.1 _ List.mem_cons_self)
  obtain ⟨text, trees, isText, row, literals⟩ := row_expressed leaves parts.2 depth true
  have isCallee : Spells .call name callee := .inner (by decide) spells
  refine ⟨_, .call callee trees, ?_, .inner (by decide) (isCallee.call row),
    List.forall_mem_append.mpr ⟨readable, literals⟩⟩
  simp [Node.text?, ApplicationForm.lead?, isText]

theorem value_expressed {node : Node} (value : Shape.Value node)
    (legal : ∀ mention ∈ node.mentions, mention.Legal) (depth : Nat) :
    Expresses (phraseOf node) depth node := by
  induction value with
  | leaf leaf =>
      have isUnary := leaf_expressed leaf legal depth
      cases leaf <;> exact isUnary
  | call isWord leaves => exact call_expressed isWord leaves legal depth
  | @math operator left right place first second firstHypothesis secondHypothesis =>
      rw [Node.mentions, List.forall_mem_append] at legal
      obtain ⟨text, tree, isText, spells, readable⟩ := firstHypothesis legal.1
      obtain ⟨other, otherTree, isOther, otherSpells, otherReadable⟩ := secondHypothesis legal.2
      refine ⟨_, .binary operator tree otherTree, ?_,
        .operation operator (operand_written spells) (operand_written otherSpells),
        List.forall_mem_append.mpr ⟨readable, otherReadable⟩⟩
      simp [Node.text?, isText, isOther]

end Javascript

end SprigCompiler
