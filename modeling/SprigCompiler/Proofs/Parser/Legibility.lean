import SprigCompiler.Proofs.Grammar.Shapes
import SprigCompiler.Proofs.Parser.Accounting
import SprigCompiler.Proofs.Parser.Layout
import SprigCompiler.Proofs.Token.Meanings
import SprigCompiler.Proofs.Tree.Symbolic

/-!
Symbolic expressions of parsed trees.

The leaves of a parsed tree are tokens.  So its names are words, its strings have no quote inside,
and its numbers are numbers.  All that its text can hide is a name that is spelled like a boolean or
like infinity.
-/

namespace SprigCompiler

variable {content otherContent : String} {token : Token} {tokens : List Token} {node : Node}
  {nodes : List Node}

/-- Whether no name of a tree is a word that a boolean or infinity is written as. -/
def Node.PlainlyNamed (tree : Node) : Prop :=
  ∀ node ∈ listed [tree], ∀ name ∈ node.name?, name ∉ ["true", "false", "inf"]

/-- Tokens that are read strictly fit their kinds, and strings have no quote inside. -/
theorem spelled_of_ofText? (read : Token.ofText? true content = .ok tokens) :
    ∀ token ∈ tokens, token.lexeme.Spelled ∧
      (token.lexeme.kind = .string → '"' ∉ token.lexeme.text.toList) := by
  have isLexemes : lexemes? content.toList = some (tokens.map Token.lexeme) := by
    rw [lexemes?_eq_ofText?, String.ofList_toList, read]
    rfl
  intro token isMember
  obtain ⟨front, inside, behind, -, kind, finished, fits, means⟩ :=
    exists_written read token isMember
  exact ⟨spelled_of_lexemes? isLexemes _ (List.mem_map_of_mem isMember), means.noQuote fits⟩

/-- A leaf is the reading of one of the tokens. -/
theorem exists_leaf (leaves : List.Forall₂ Leaf tokens nodes) (isMember : node ∈ nodes) :
    ∃ token ∈ tokens, Leaf token node := by
  induction leaves with
  | nil => exact absurd isMember List.not_mem_nil
  | @cons token other tokens nodes leaf _ inductionHypothesis =>
      rcases List.mem_cons.mp isMember with rfl | isLater
      · exact ⟨token, List.mem_cons_self, leaf⟩
      · obtain ⟨found, isFound, leaf⟩ := inductionHypothesis isLater
        exact ⟨found, List.mem_cons_of_mem _ isFound, leaf⟩

private theorem Leaf.legible (leaf : Leaf token node) (spelled : token.lexeme.Spelled)
    (noQuote : token.lexeme.kind = .string → '"' ∉ token.lexeme.text.toList)
    (plain : ∀ name ∈ node.name?, name ∉ ["true", "false", "inf"]) :
    node.Legible := by
  cases leaf with
  | identifier name place =>
      have isOther := plain name rfl
      simp only [List.mem_cons, List.not_mem_nil, or_false, not_or] at isOther
      exact ⟨spelled.1 rfl, isOther⟩
  | string value place => exact noQuote rfl
  | number digits value place numeral => exact Decimal.isNaN_of_read? numeral (spelled.2 rfl)
  | boolean word place => trivial

/-- A parsed tree whose names are plain can be told from its text. -/
theorem legible_of_parse {tree : Node} (parsed : parse content = .ok tree)
    (plain : tree.PlainlyNamed) : ∀ node ∈ Node.listed [tree], node.Legible := by
  obtain ⟨tokens, taken, body, read, among, built, rfl⟩ := tokens_of_parse parsed
  intro node isMember
  by_cases isLeaf : node.isLeaf = true
  · have isBelow : node ∈ Node.listed body := by
      rw [Node.listed_singleton] at isMember
      rcases List.mem_cons.mp isMember with rfl | isBelow
      · cases isLeaf
      · exact isBelow
    obtain ⟨token, isToken, leaf⟩ :=
      exists_leaf built.accounts.leaves (List.mem_filter.mpr ⟨isBelow, isLeaf⟩)
    have isRead := among.subset (List.mem_of_mem_filter isToken)
    obtain ⟨spelled, noQuote⟩ := spelled_of_ofText? read token isRead
    exact leaf.legible spelled noQuote (plain node isMember)
  · cases node with
    | identifier | string | number | boolean => exact absurd rfl isLeaf
    | _ => trivial

/-- Trees of texts have the same symbolic expression exactly when they are equal up to locations,
as long as no name in them is a word that a boolean or infinity is written as. -/
theorem parse_text_eq_iff_alike {tree otherTree : Node} (parsed : parse content = .ok tree)
    (otherParsed : parse otherContent = .ok otherTree) (plain : tree.PlainlyNamed)
    (otherPlain : otherTree.PlainlyNamed) :
    tree.text = otherTree.text ↔ tree.Alike otherTree :=
  Node.text_eq_iff_alike (legible_of_parse parsed plain) (legible_of_parse otherParsed otherPlain)

/-- One string as the argument of a call, with a parenthesis inside, once in parentheses and once
without. -/
theorem parse_text_eq_iff_alike_call :
    ∃ tree otherTree, parse "main f \"a)\"" = .ok tree ∧ parse "main f(\"a)\")" = .ok otherTree ∧
      tree.PlainlyNamed ∧ otherTree.PlainlyNamed ∧ tree.text = otherTree.text ∧
      tree.Alike otherTree := by
  let call : Node := .application .call (.identifier "f" ⟨1, 5, 5, 6⟩)
    [.string "a)" ⟨1, 7, 7, 11⟩] ⟨1, 5, 5, 11⟩
  let other : Node := .application .call (.identifier "f" ⟨1, 5, 5, 6⟩)
    [.string "a)" ⟨1, 7, 7, 11⟩] ⟨1, 5, 5, 12⟩
  let tree : Node := .program [.statement .main call ⟨1, 0, 0, 11⟩] ⟨1, 0, 0, 11⟩
  let otherTree : Node := .program [.statement .main other ⟨1, 0, 0, 12⟩] ⟨1, 0, 0, 12⟩
  have read : Token.ofText? true "main f \"a)\"" =
      .ok [⟨.keyword .mainWord, "main", ⟨1, 0, 0, 4⟩⟩, ⟨.identifier, "f", ⟨1, 5, 5, 6⟩⟩,
        ⟨.string, "a)", ⟨1, 7, 7, 11⟩⟩] := by
    decide +kernel
  have otherRead : Token.ofText? true "main f(\"a)\")" =
      .ok [⟨.keyword .mainWord, "main", ⟨1, 0, 0, 4⟩⟩, ⟨.identifier, "f", ⟨1, 5, 5, 6⟩⟩,
        ⟨.openParen, "(", ⟨1, 6, 6, 7⟩⟩, ⟨.string, "a)", ⟨1, 7, 7, 11⟩⟩,
        ⟨.closeParen, ")", ⟨1, 11, 11, 12⟩⟩] := by
    decide +kernel
  have parsed : parse "main f \"a)\"" = .ok tree := (parse_eq_of_tokens read).trans rfl
  have otherParsed : parse "main f(\"a)\")" = .ok otherTree :=
    (parse_eq_of_tokens otherRead).trans rfl
  have plain : tree.PlainlyNamed := by
    unfold Node.PlainlyNamed
    decide
  have otherPlain : otherTree.PlainlyNamed := by
    unfold Node.PlainlyNamed
    decide
  have same : tree.text = otherTree.text := rfl
  exact ⟨tree, otherTree, parsed, otherParsed, plain, otherPlain, same,
    (parse_text_eq_iff_alike parsed otherParsed plain otherPlain).mp same⟩

end SprigCompiler
