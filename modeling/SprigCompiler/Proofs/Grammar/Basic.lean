import Mathlib.Data.List.Forall2
import SprigCompiler.Number.Decimal
import SprigCompiler.Tree.Node

/-!
The grammar of Sprig programs.

A derivation looks at the kinds and texts of tokens only, and it leaves the locations of its tree
open.  Each relation below is one rule of the grammar: it holds between a row of lexemes and a tree
when the row derives the tree.
-/

namespace SprigCompiler

structure Lexeme where
  kind : TokenKind
  text : String
  deriving DecidableEq, Repr

def Token.lexeme (token : Token) : Lexeme := ⟨token.kind, token.text⟩

def Node.isMain : Node → Bool
  | .statement .main _ _ => true
  | _ => false

namespace Grammar

inductive Literal : Lexeme → Node → Prop where
  | string (text : String) (place : Location) : Literal ⟨.string, text⟩ (.string text place)
  | number (text : String) (value : Binary64) (place : Location)
      (numeral : Decimal.read? text.toList = some value) :
      Literal ⟨.number, text⟩ (.number value place)
  | boolean (text : String) (place : Location) :
      Literal ⟨.boolean, text⟩ (.boolean (text == "true") place)

inductive Name : List Lexeme → Node → Prop where
  | name (text : String) (place : Location) : Name [⟨.identifier, text⟩] (.identifier text place)

inductive Atom : Lexeme → Node → Prop where
  | name (text : String) (place : Location) : Atom ⟨.identifier, text⟩ (.identifier text place)
  | literal {lexeme : Lexeme} {node : Node} (literal : Literal lexeme node) : Atom lexeme node

/-- One or more arguments with commas between them, and none behind the last. -/
inductive Listed : List Lexeme → List Node → Prop where
  | last {lexeme : Lexeme} {node : Node} (atom : Atom lexeme node) : Listed [lexeme] [node]
  | more {lexeme : Lexeme} {node : Node} {lexemes : List Lexeme} {nodes : List Node}
      (comma : String) (atom : Atom lexeme node) (rest : Listed lexemes nodes) :
      Listed (lexeme :: ⟨.comma, comma⟩ :: lexemes) (node :: nodes)

/-- The delimiters of a list of arguments.  Angles stand only where types are declared or
applied. -/
inductive Delimiters : ApplicationForm → TokenKind → TokenKind → Prop where
  | parens (form : ApplicationForm) : Delimiters form .openParen .closeParen
  | declared : Delimiters .typeParameters .openAngle .closeAngle
  | applied : Delimiters .instantiation .openAngle .closeAngle

inductive Arguments (form : ApplicationForm) : List Lexeme → List Node → Prop where
  | row {lexeme : Lexeme} {node : Node} {lexemes : List Lexeme} {nodes : List Node}
      (first : Atom lexeme node) (rest : List.Forall₂ Atom lexemes nodes) :
      Arguments form (lexeme :: lexemes) (node :: nodes)
  | empty {opening closing : TokenKind} (start stop : String)
      (delimiters : Delimiters form opening closing) :
      Arguments form [⟨opening, start⟩, ⟨closing, stop⟩] []
  | listed {opening closing : TokenKind} {lexemes : List Lexeme} {nodes : List Node}
      (start stop : String) (delimiters : Delimiters form opening closing)
      (listed : Listed lexemes nodes) :
      Arguments form (⟨opening, start⟩ :: (lexemes ++ [⟨closing, stop⟩])) nodes

inductive Named (form : ApplicationForm) : List Lexeme → Node → Prop where
  | name (text : String) (place : Location) :
      Named form [⟨.identifier, text⟩] (.identifier text place)
  | application {lexemes : List Lexeme} {nodes : List Node} (text : String)
      (place extent : Location) (arguments : Arguments form lexemes nodes) :
      Named form (⟨.identifier, text⟩ :: lexemes)
        (.application form (.identifier text place) nodes extent)

inductive Term (form : ApplicationForm) : List Lexeme → Node → Prop where
  | named {lexemes : List Lexeme} {node : Node} (named : Named form lexemes node) :
      Term form lexemes node
  | literal {lexeme : Lexeme} {node : Node} (literal : Literal lexeme node) :
      Term form [lexeme] node

inductive Operand : List Lexeme → Node → Prop where
  | named {lexemes : List Lexeme} {node : Node} (named : Named .call lexemes node) :
      Operand lexemes node
  | number {text : String} {node : Node} (literal : Literal ⟨.number, text⟩ node) :
      Operand [⟨.number, text⟩] node

/-- One or more operands with arithmetic operators between them, grouped to the right. -/
inductive Chain : List Lexeme → Node → Prop where
  | last {lexemes : List Lexeme} {node : Node} (operand : Operand lexemes node) :
      Chain lexemes node
  | link {lexemes rest : List Lexeme} {left right : Node} {sign : Operator}
      {operator : MathOperator} (text : String) (place : Location)
      (operand : Operand lexemes left) (arithmetic : MathOperator.ofOperator? sign = some operator)
      (chain : Chain rest right) :
      Chain (lexemes ++ ⟨.operator sign, text⟩ :: rest) (.math operator left right place)

inductive Value : List Lexeme → Node → Prop where
  | term {lexemes : List Lexeme} {node : Node} (term : Term .call lexemes node) :
      Value lexemes node
  | chain {lexemes rest : List Lexeme} {left right : Node} {sign : Operator}
      {operator : MathOperator} (text : String) (place : Location)
      (operand : Operand lexemes left) (arithmetic : MathOperator.ofOperator? sign = some operator)
      (chain : Chain rest right) :
      Value (lexemes ++ ⟨.operator sign, text⟩ :: rest) (.math operator left right place)

/-- The members behind the first bar of a union, with bars between them and perhaps one behind the
last. -/
inductive Members (form : ApplicationForm) : List Lexeme → List Node → Prop where
  | nothing : Members form [] []
  | last {lexemes : List Lexeme} {node : Node} (member : Term form lexemes node) :
      Members form lexemes [node]
  | more {lexemes rest : List Lexeme} {node : Node} {nodes : List Node} (bar : String)
      (member : Term form lexemes node) (members : Members form rest nodes) :
      Members form (lexemes ++ ⟨.operator .union, bar⟩ :: rest) (node :: nodes)

inductive TypeBody : List Lexeme → Node → Prop where
  | member {lexemes : List Lexeme} {node : Node} (member : Term .instantiation lexemes node) :
      TypeBody lexemes node
  | union {lexemes rest : List Lexeme} {node : Node} {nodes : List Node} (bar : String)
      (place : Location) (member : Term .instantiation lexemes node)
      (members : Members .instantiation rest nodes) :
      TypeBody (lexemes ++ ⟨.operator .union, bar⟩ :: rest) (.union (node :: nodes) place)

inductive Declaration (word : Keyword) (form : StatementForm)
    (Left Right : List Lexeme → Node → Prop) : List Lexeme → Node → Prop where
  | declare {lexemes rest : List Lexeme} {left right : Node} (text equals : String)
      (place extent : Location) (declared : Left lexemes left) (body : Right rest right) :
      Declaration word form Left Right
        (⟨.keyword word, text⟩ :: (lexemes ++ ⟨.operator .assign, equals⟩ :: rest))
        (.statement form (.assignment left right place) extent)

abbrev TypeDeclaration := Declaration .typeWord .type (Named .typeParameters) TypeBody

abbrev LetDeclaration := Declaration .letWord .binding Name Value

inductive Return : List Lexeme → Node → Prop where
  | value {lexemes : List Lexeme} {node : Node} (text : String) (place : Location)
      (value : Value lexemes node) :
      Return (⟨.keyword .returnWord, text⟩ :: lexemes) (.statement .result node place)

inductive Inner : List Lexeme → Node → Prop where
  | type {lexemes : List Lexeme} {node : Node} (declaration : TypeDeclaration lexemes node) :
      Inner lexemes node
  | binding {lexemes : List Lexeme} {node : Node} (declaration : LetDeclaration lexemes node) :
      Inner lexemes node
  | result {lexemes : List Lexeme} {node : Node} (result : Return lexemes node) :
      Inner lexemes node

inductive Sequence (Item : List Lexeme → Node → Prop) : List Lexeme → List Node → Prop where
  | nil : Sequence Item [] []
  | cons {lexemes rest : List Lexeme} {node : Node} {nodes : List Node}
      (item : Item lexemes node) (items : Sequence Item rest nodes) :
      Sequence Item (lexemes ++ rest) (node :: nodes)

inductive Block : List Lexeme → Node → Prop where
  | braces {lexemes : List Lexeme} {nodes : List Node} (start stop : String) (place : Location)
      (items : Sequence Inner lexemes nodes) :
      Block (⟨.openBrace, start⟩ :: (lexemes ++ [⟨.closeBrace, stop⟩])) (.block nodes place)

inductive FunctionBody : List Lexeme → Node → Prop where
  | value {lexemes : List Lexeme} {node : Node} (value : Value lexemes node) :
      FunctionBody lexemes node
  | block {lexemes : List Lexeme} {node : Node} (block : Block lexemes node) :
      FunctionBody lexemes node

abbrev FunctionDeclaration (word : Keyword) :=
  Declaration word .function (Named .functionParameters) FunctionBody

/-- A main declaration.  A bare name stands for a call without arguments. -/
inductive Main : List Lexeme → Node → Prop where
  | name (text name : String) (place extent whole : Location) :
      Main [⟨.keyword .mainWord, text⟩, ⟨.identifier, name⟩]
        (.statement .main (.application .call (.identifier name place) [] extent) whole)
  | application {lexemes : List Lexeme} {nodes : List Node} (text name : String)
      (place extent whole : Location) (arguments : Arguments .call lexemes nodes) :
      Main (⟨.keyword .mainWord, text⟩ :: ⟨.identifier, name⟩ :: lexemes)
        (.statement .main (.application .call (.identifier name place) nodes extent) whole)

inductive Statement : List Lexeme → Node → Prop where
  | main {lexemes : List Lexeme} {node : Node} (main : Main lexemes node) :
      Statement lexemes node
  | type {lexemes : List Lexeme} {node : Node} (declaration : TypeDeclaration lexemes node) :
      Statement lexemes node
  | binding {lexemes : List Lexeme} {node : Node} (declaration : LetDeclaration lexemes node) :
      Statement lexemes node
  | function {lexemes : List Lexeme} {node : Node} {word : Keyword} (isFun : word.isFun = true)
      (declaration : FunctionDeclaration word lexemes node) : Statement lexemes node

/-- A program: statements, of which at most one is a main declaration. -/
inductive Program : List Lexeme → Node → Prop where
  | statements {lexemes : List Lexeme} {nodes : List Node} (place : Location)
      (items : Sequence Statement lexemes nodes) (oneMain : nodes.countP Node.isMain ≤ 1) :
      Program lexemes (.program nodes place)

end Grammar

end SprigCompiler
