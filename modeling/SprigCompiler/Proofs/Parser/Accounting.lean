import SprigCompiler.Proofs.Parser.Building
import SprigCompiler.Proofs.Parser.Lookahead

/-!
Every token is accounted for.

Each kind of token that means something has its kind of node, and a tree has as many of these nodes
as there were tokens, in the order of the tokens.
-/

namespace SprigCompiler

def Keyword.declared : Keyword → NodeKind
  | mainWord => .mainDeclaration
  | typeWord => .typeDeclaration
  | letWord => .letDeclaration
  | funWord | funcWord => .functionDeclaration
  | returnWord => .returnStatement

def TokenKind.opened? : TokenKind → Option NodeKind
  | keyword word => some word.declared
  | openBrace => some .blockStatement
  | _ => none

def TokenKind.arithmetic? : TokenKind → Option MathOperator
  | operator .plus => some .add
  | operator .minus => some .sub
  | operator .asterisk => some .mul
  | operator .slash => some .div
  | _ => none

namespace Node

def isLeaf : Node → Bool
  | identifier _ _ | string _ _ | number _ _ | boolean _ _ => true
  | _ => false

def isStatement : Node → Bool
  | statement _ _ _ => true
  | _ => false

def operator? : Node → Option MathOperator
  | math operator _ _ _ => some operator
  | _ => none

end Node

/-- Whether a token opens a node of its kind, which starts where the token does. -/
structure Opens (token : Token) (node : Node) : Prop where
  kind : token.kind.opened? = some node.kind
  position : node.location.position = token.location.position
  start : node.location.start = token.location.start

structure Accounts (tokens : List Token) (nodes : List Node) : Prop where
  leaves : List.Forall₂ Leaf (tokens.filter (·.kind.isAtom)) (nodes.filter (·.isLeaf))
  statements : List.Forall₂ Opens (tokens.filter (·.kind.isKeyword)) (nodes.filter (·.isStatement))
  blocks : List.Forall₂ Opens (tokens.filter (·.kind == .openBrace))
    (nodes.filter (·.kind == .blockStatement))
  assignments : tokens.countP (·.kind == .operator .assign) =
    nodes.countP (·.kind == .assignmentExpression)
  operators : tokens.filterMap (·.kind.arithmetic?) = nodes.filterMap (·.operator?)

variable {token : Token} {tokens front behind before after : List Token} {node : Node}
  {nodes others : List Node}

namespace Accounts

theorem append (first : Accounts front nodes) (second : Accounts behind others) :
    Accounts (front ++ behind) (nodes ++ others) where
  leaves := by
    rw [List.filter_append, List.filter_append]
    exact List.rel_append first.leaves second.leaves
  statements := by
    rw [List.filter_append, List.filter_append]
    exact List.rel_append first.statements second.statements
  blocks := by
    rw [List.filter_append, List.filter_append]
    exact List.rel_append first.blocks second.blocks
  assignments := by
    rw [List.countP_append, List.countP_append, first.assignments, second.assignments]
  operators := by
    rw [List.filterMap_append, List.filterMap_append, first.operators, second.operators]

private theorem nothing : Accounts [] [] := ⟨.nil, .nil, .nil, rfl, rfl⟩

private theorem leaf (leaf : Leaf token node) : Accounts [token] [node] := by
  have leaves : List.Forall₂ Leaf [token] [node] := .cons leaf .nil
  cases leaf <;> exact ⟨leaves, .nil, .nil, rfl, rfl⟩

/-- A token that means nothing by itself. -/
theorem mark (isMark : token.kind.isMark = true) : Accounts [token] [] := by
  obtain ⟨kind, text, location⟩ := token
  cases kind with
  | operator sign =>
      cases sign <;> first | exact ⟨.nil, .nil, .nil, rfl, rfl⟩ | cases isMark
  | _ => first | exact ⟨.nil, .nil, .nil, rfl, rfl⟩ | cases isMark

/-- A node that is not owed to any token of its own. -/
theorem application (form : ApplicationForm) (head : Node) (arguments : List Node)
    (location : Location) : Accounts [] [.application form head arguments location] := by
  cases form <;> exact ⟨.nil, .nil, .nil, rfl, rfl⟩

private theorem union (members : List Node) (location : Location) :
    Accounts [] [.union members location] := ⟨.nil, .nil, .nil, rfl, rfl⟩

private theorem program (body : List Node) (location : Location) :
    Accounts [] [.program body location] := ⟨.nil, .nil, .nil, rfl, rfl⟩

private theorem block {opening : Token} (opens : opening.kind = .openBrace) (body : List Node)
    (closing : Location) :
    Accounts [opening] [.block body (opening.location.through closing)] := by
  obtain ⟨kind, text, location⟩ := opening
  cases opens
  exact ⟨.nil, .nil, .cons ⟨rfl, rfl, rfl⟩ .nil, rfl, rfl⟩

private theorem statement {head : Token} {word : Keyword} (isKeyword : head.kind = .keyword word)
    (value : Node) (last : Location) :
    Accounts [head] [.statement (Parse.formOf word) value (head.location.through last)] := by
  obtain ⟨kind, text, location⟩ := head
  cases isKeyword
  cases word <;> exact ⟨.nil, .cons ⟨rfl, rfl, rfl⟩ .nil, .nil, rfl, rfl⟩

private theorem assignment (isEquals : token.kind = .operator .assign) (left right : Node)
    (location : Location) : Accounts [token] [.assignment left right location] := by
  obtain ⟨kind, text, place⟩ := token
  cases isEquals
  exact ⟨.nil, .nil, .nil, rfl, rfl⟩

private theorem math {sign : Operator} {operator : MathOperator}
    (isOperator : token.kind = .operator sign)
    (arithmetic : MathOperator.ofOperator? sign = some operator) (left right : Node)
    (location : Location) : Accounts [token] [.math operator left right location] := by
  obtain ⟨kind, text, place⟩ := token
  cases isOperator
  cases sign <;> cases arithmetic <;> exact ⟨.nil, .nil, .nil, rfl, rfl⟩

private theorem filter_between {condition : Token → Bool} (fails : condition token = false) :
    (before ++ token :: after).filter condition =
      (token :: (before ++ after)).filter condition := by
  rw [List.filter_append, List.filter_cons, List.filter_cons, List.filter_append, fails]
  rfl

/-- An operator may as well stand behind its left side, unless both compute. -/
theorem between {sign : Operator} (isOperator : token.kind = .operator sign)
    (apart : token.kind.arithmetic? = none ∨ before.filterMap (·.kind.arithmetic?) = [])
    (accounts : Accounts (token :: (before ++ after)) nodes) :
    Accounts (before ++ token :: after) nodes where
  leaves := by
    rw [filter_between (by rw [isOperator]; rfl)]
    exact accounts.leaves
  statements := by
    rw [filter_between (by rw [isOperator]; rfl)]
    exact accounts.statements
  blocks := by
    rw [filter_between (by rw [isOperator]; rfl)]
    exact accounts.blocks
  assignments := by
    rw [List.perm_middle.countP_eq]
    exact accounts.assignments
  operators := by
    rw [← accounts.operators]
    rcases apart with noArithmetic | noOperators
    · rw [List.filterMap_append, List.filterMap_cons, List.filterMap_cons, noArithmetic,
        List.filterMap_append]
    · rw [List.filterMap_append, List.filterMap_cons, List.filterMap_cons, List.filterMap_append,
        noOperators]
      rfl

end Accounts

private theorem arithmetic?_eq_none (plain : token.kind.operator? = none) :
    token.kind.arithmetic? = none := by
  cases kind : token.kind with
  | operator sign =>
      rw [kind] at plain
      cases plain
  | _ => rfl

/-- Trees that stand over tokens account for them. -/
theorem Built.accounts (built : Built tokens nodes) : Accounts tokens (Node.listed nodes) := by
  induction built with
  | nothing => exact .nothing
  | mark isMark => exact .mark isMark
  | leaf leaf =>
      rw [leaf.listed_eq]
      exact .leaf leaf
  | append first second firstAccounts secondAccounts =>
      rw [Node.listed_append]
      exact firstAccounts.append secondAccounts
  | @application tokens form head arguments first last children isFirst isLast accounts =>
      rw [Node.listed_singleton]
      exact (Accounts.application form head arguments _).append accounts
  | called children accounts =>
      rw [Node.listed_singleton]
      exact (Accounts.application _ _ _ _).append accounts
  | union children isFirst isLast accounts =>
      rw [Node.listed_singleton]
      exact (Accounts.union _ _).append accounts
  | math plain isOperator arithmetic lefts rights leftAccounts rightAccounts =>
      have sides := leftAccounts.append rightAccounts
      rw [← Node.listed_append] at sides
      rw [Node.listed_singleton]
      -- The node is listed before its left side, and its operator stands behind.  That the left side
      -- has no operator of its own keeps the order.
      refine .between isOperator (.inr ?_)
        ((Accounts.math isOperator arithmetic _ _ _).append sides)
      rw [List.filterMap_eq_nil_iff]
      exact fun token isMember => arithmetic?_eq_none (plain token isMember)
  | assignment isEquals lefts rights leftAccounts rightAccounts =>
      have sides := leftAccounts.append rightAccounts
      rw [← Node.listed_append] at sides
      rw [Node.listed_singleton]
      refine .between isEquals (.inl ?_) ((Accounts.assignment isEquals _ _ _).append sides)
      rw [isEquals]
      rfl
  | block opens closes children accounts =>
      rw [Node.listed_singleton]
      have inside := accounts.append (.mark (by rw [closes]; rfl))
      rw [List.append_nil] at inside
      exact (Accounts.block opens _ _).append inside
  | statement isKeyword children accounts =>
      rw [Node.listed_singleton]
      exact (Accounts.statement isKeyword _ _).append accounts

namespace Parse

/-- The tokens that were taken for a call, as the call takes them: the first token of a block counts
as its brace, because nothing looks at it again. -/
def Call.heads : Call → List Token
  | program => []
  | statement head => [head]
  | expression head => [head]
  | block opening => [{ opening with kind := .openBrace }]

private theorem Call.yields_accounts (call : Call) : Yields call.run fun taken tree =>
    Accounts (call.heads ++ taken) (Node.listed [tree]) := by
  cases call with
  | program =>
      refine .still_bind (fun _ => rfl) fun count => ?_
      refine .bind (yields_statements count) fun taken body built => ?_
      refine .still_bind (fun _ => rfl) fun extent => .build ?_
      rw [List.append_nil, Node.listed_singleton]
      exact (Accounts.program body extent).append built.accounts
  | statement head => exact (yields_statement head).mono fun _ _ built => built.accounts
  | expression head => exact (yields_expression head).mono fun _ _ built => built.accounts
  | block opening => exact (yields_block opening).mono fun _ _ built => built.accounts

/-- A call that gives a tree has lost no token, taken none twice and changed no order: the tree
accounts for the tokens with which the call started and those over which it has moved the
cursor. -/
theorem Call.run_accounts (call : Call) {parser behind : Parser} {tree : Node}
    (within : parser.cursor.consumed ≤ parser.cursor.tokens.size)
    (ran : call.run parser = (.ok tree, behind)) :
    behind.cursor.tokens = parser.cursor.tokens ∧
      parser.cursor.consumed ≤ behind.cursor.consumed ∧
      behind.cursor.consumed ≤ parser.cursor.tokens.size ∧
      Accounts (call.heads ++ (parser.cursor.tokens.extract parser.cursor.consumed
        behind.cursor.consumed).toList) (Node.listed [tree]) := by
  obtain ⟨source, past, ahead, entry, rfl⟩ :
      ∃ source past ahead entry, parser = .between source entry past ahead :=
    ⟨_, _, _, _, eq_between within⟩
  obtain ⟨found, taken, rest, rfl, rfl, accounts⟩ := call.yields_accounts.behind ran
  have between : ((Parser.between source entry past (taken ++ rest)).cursor.tokens.extract
      past.length (taken.reverse ++ past).length).toList = taken := by
    simp [Parser.between]
  refine ⟨?_, ?_, ?_, ?_⟩
  · simp [Parser.between]
  · simp [Parser.between]
  · simp [Parser.between]
    omega
  · exact between.symm ▸ accounts

/-- A declaration with a chain, all of whose tokens come back. -/
theorem Call.run_accounts_binding :
    let source : Source := .ofString "let a = b + c"
    let head : Token := ⟨.keyword .letWord, "let", ⟨1, 0, 0, 3⟩⟩
    let tokens : Array Token := #[head, ⟨.identifier, "a", ⟨1, 4, 4, 5⟩⟩,
      ⟨.operator .assign, "=", ⟨1, 6, 6, 7⟩⟩, ⟨.identifier, "b", ⟨1, 8, 8, 9⟩⟩,
      ⟨.operator .plus, "+", ⟨1, 10, 10, 11⟩⟩, ⟨.identifier, "c", ⟨1, 12, 12, 13⟩⟩]
    ∃ tree, ((Call.statement head).run ⟨source, ⟨tokens, 1⟩, none⟩).1 = .ok tree ∧
      Accounts tokens.toList (Node.listed [tree]) := by
  intro source head tokens
  let before : Parser := ⟨source, ⟨tokens, 1⟩, none⟩
  let behind : Parser := ⟨source, ⟨tokens, 6⟩, none⟩
  let sum : Node := .math .add (.identifier "b" ⟨1, 8, 8, 9⟩) (.identifier "c" ⟨1, 12, 12, 13⟩)
    ⟨1, 8, 8, 13⟩
  let tree : Node := .statement .binding
    (.assignment (.identifier "a" ⟨1, 4, 4, 5⟩) sum ⟨1, 4, 4, 13⟩) ⟨1, 0, 0, 13⟩
  have within : before.cursor.consumed ≤ before.cursor.tokens.size := by decide
  have ran : (Call.statement head).run before = (.ok tree, behind) := rfl
  have taken : (Call.statement head).heads ++ (tokens.extract 1 6).toList = tokens.toList := by
    decide
  have accounts := (Call.run_accounts (.statement head) within ran).2.2.2
  exact ⟨tree, congrArg Prod.fst ran, taken ▸ accounts⟩

/-- A block is not asked for its brace: a name in its place is lost. -/
theorem Call.run_block_name :
    let name : Token := ⟨.identifier, "x", ⟨1, 0, 0, 1⟩⟩
    let close : Token := ⟨.closeBrace, "\x7d", ⟨1, 1, 1, 2⟩⟩
    ∃ tree, ((Call.block name).run ⟨.ofString "", ⟨#[close], 0⟩, none⟩).1 = .ok tree ∧
      ¬Accounts [name, close] (Node.listed [tree]) := by
  intro name close
  refine ⟨.block [] ⟨1, 0, 0, 2⟩, rfl, fun accounts => ?_⟩
  have leaves : List.Forall₂ Leaf [name] [] := accounts.leaves
  cases leaves

end Parse

end SprigCompiler
