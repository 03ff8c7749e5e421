import SprigCompiler.Proofs.Grammar.Basic

/-!
The lexemes of derivations.

Names and their arguments hold no operators, keywords and braces; values and types hold no keywords
and braces.  So a keyword or a brace always belongs to a statement or a block itself.
-/

namespace SprigCompiler

namespace TokenKind

def inArguments (kind : TokenKind) : Bool :=
  kind.isAtom || kind == .openParen || kind == .closeParen || kind == .openAngle ||
    kind == .closeAngle || kind == .comma

/-- Whether a kind decides what an application behind it means: keywords and braces do. -/
def governs (kind : TokenKind) : Bool :=
  kind.isKeyword || kind == .openBrace || kind == .closeBrace

private theorem governs_of_inArguments {kind : TokenKind} (inside : kind.inArguments = true) :
    kind.governs = false := by
  cases kind <;> first | rfl | cases inside

theorem inArguments_of_isAtom {kind : TokenKind} (isAtom : kind.isAtom = true) :
    kind.inArguments = true := by
  unfold inArguments
  rw [isAtom]
  rfl

end TokenKind

namespace Grammar

theorem Literal.inArguments {lexeme : Lexeme} {node : Node} (derivation : Literal lexeme node) :
    lexeme.kind.inArguments = true := by
  cases derivation <;> rfl

theorem Atom.isAtom {lexeme : Lexeme} {node : Node} (derivation : Atom lexeme node) :
    lexeme.kind.isAtom = true := by
  cases derivation with
  | name => rfl
  | literal derivation => cases derivation <;> rfl

private theorem Atom.inArguments {lexeme : Lexeme} {node : Node} (derivation : Atom lexeme node) :
    lexeme.kind.inArguments = true :=
  TokenKind.inArguments_of_isAtom derivation.isAtom

private theorem isAtom_of_row {lexemes : List Lexeme} {nodes : List Node}
    (derivations : List.Forall₂ Atom lexemes nodes) :
    ∀ lexeme ∈ lexemes, lexeme.kind.isAtom = true := by
  induction derivations with
  | nil => exact nofun
  | cons atom _ inductionHypothesis =>
      intro lexeme isMember
      rcases List.mem_cons.mp isMember with rfl | isLater
      · exact atom.isAtom
      · exact inductionHypothesis lexeme isLater

private theorem Listed.inArguments {lexemes : List Lexeme} {nodes : List Node}
    (derivation : Listed lexemes nodes) :
    ∀ lexeme ∈ lexemes, lexeme.kind.inArguments = true := by
  induction derivation with
  | last atom =>
      intro lexeme isMember
      rw [List.mem_singleton.mp isMember]
      exact atom.inArguments
  | more comma atom _ inductionHypothesis =>
      intro lexeme isMember
      rcases List.mem_cons.mp isMember with rfl | isLater
      · exact atom.inArguments
      · rcases List.mem_cons.mp isLater with rfl | isLater
        · rfl
        · exact inductionHypothesis lexeme isLater

private theorem Arguments.inArguments {form : ApplicationForm} {lexemes : List Lexeme}
    {nodes : List Node} (derivation : Arguments form lexemes nodes) :
    ∀ lexeme ∈ lexemes, lexeme.kind.inArguments = true := by
  intro lexeme isMember
  cases derivation with
  | row first others =>
      exact TokenKind.inArguments_of_isAtom (isAtom_of_row (.cons first others) lexeme isMember)
  | empty _ _ delimiters =>
      cases delimiters <;> revert lexeme <;> simp [TokenKind.inArguments]
  | listed _ _ delimiters listed =>
      have inside := listed.inArguments lexeme
      rcases List.mem_cons.mp isMember with rfl | isLater
      · cases delimiters <;> rfl
      · rcases List.mem_append.mp isLater with isInside | isLast
        · exact inside isInside
        · rw [List.mem_singleton.mp isLast]
          cases delimiters <;> rfl

theorem Named.inArguments {form : ApplicationForm} {lexemes : List Lexeme} {node : Node}
    (derivation : Named form lexemes node) :
    ∀ lexeme ∈ lexemes, lexeme.kind.inArguments = true := by
  intro lexeme isMember
  cases derivation with
  | name =>
      rw [List.mem_singleton.mp isMember]
      rfl
  | application _ _ _ arguments =>
      rcases List.mem_cons.mp isMember with rfl | isLater
      · rfl
      · exact arguments.inArguments lexeme isLater

theorem Term.inArguments {form : ApplicationForm} {lexemes : List Lexeme} {node : Node}
    (derivation : Term form lexemes node) :
    ∀ lexeme ∈ lexemes, lexeme.kind.inArguments = true := by
  intro lexeme isMember
  cases derivation with
  | named derivation => exact derivation.inArguments lexeme isMember
  | literal derivation =>
      rw [List.mem_singleton.mp isMember]
      exact derivation.inArguments

theorem Term.noGoverning {form : ApplicationForm} {lexemes : List Lexeme} {node : Node}
    (derivation : Term form lexemes node) : ∀ lexeme ∈ lexemes, lexeme.kind.governs = false :=
  fun lexeme isMember => TokenKind.governs_of_inArguments (derivation.inArguments lexeme isMember)

theorem Term.nonempty {form : ApplicationForm} {lexemes : List Lexeme} {node : Node}
    (derivation : Term form lexemes node) : ∃ first others, lexemes = first :: others := by
  cases derivation with
  | named derivation => cases derivation <;> exact ⟨_, _, rfl⟩
  | literal => exact ⟨_, _, rfl⟩

theorem Term.ne_nil {form : ApplicationForm} {lexemes : List Lexeme} {node : Node}
    (derivation : Term form lexemes node) : lexemes ≠ [] := by
  obtain ⟨first, others, rfl⟩ := derivation.nonempty
  exact nofun

theorem Operand.term {lexemes : List Lexeme} {node : Node} (derivation : Operand lexemes node) :
    Term .call lexemes node := by
  cases derivation with
  | named derivation => exact .named derivation
  | number derivation => exact .literal derivation

theorem Term.named_of_cut {form other : ApplicationForm} {lexemes whole : List Lexeme}
    {node tree : Node} (term : Term form lexemes node) (derivation : Named other whole tree)
    (cutOff : lexemes <+: whole) : Named form lexemes node := by
  cases term with
  | named named => exact named
  | literal literal =>
      cases derivation <;>
        · obtain ⟨rfl, _⟩ := List.cons_prefix_cons.mp cutOff
          cases literal

theorem Term.operand_of_cut {lexemes whole : List Lexeme} {node tree : Node}
    (term : Term .call lexemes node) (derivation : Operand whole tree)
    (cutOff : lexemes <+: whole) : Operand lexemes node := by
  cases derivation with
  | named derivation => exact .named (term.named_of_cut derivation cutOff)
  | number literal =>
      obtain ⟨first, others, rfl⟩ := term.nonempty
      obtain ⟨rfl, cutNil⟩ := List.cons_prefix_cons.mp cutOff
      rw [List.prefix_nil.mp cutNil] at term ⊢
      cases term with
      | named named => cases named
      | literal literal => exact .number literal

private theorem Chain.noGoverning {lexemes : List Lexeme} {node : Node}
    (derivation : Chain lexemes node) : ∀ lexeme ∈ lexemes, lexeme.kind.governs = false := by
  induction derivation with
  | last operand => exact operand.term.noGoverning
  | link text place operand _ _ inductionHypothesis =>
      intro lexeme isMember
      rcases List.mem_append.mp isMember with isLeft | isRight
      · exact operand.term.noGoverning lexeme isLeft
      · rcases List.mem_cons.mp isRight with rfl | isLater
        · rfl
        · exact inductionHypothesis lexeme isLater

theorem Value.noGoverning {lexemes : List Lexeme} {node : Node}
    (derivation : Value lexemes node) : ∀ lexeme ∈ lexemes, lexeme.kind.governs = false := by
  cases derivation with
  | term term => exact term.noGoverning
  | chain text place operand arithmetic chain =>
      exact (Chain.link text place operand arithmetic chain).noGoverning

private theorem Members.noGoverning {form : ApplicationForm} {lexemes : List Lexeme}
    {nodes : List Node} (derivation : Members form lexemes nodes) :
    ∀ lexeme ∈ lexemes, lexeme.kind.governs = false := by
  induction derivation with
  | nothing => exact nofun
  | last member => exact member.noGoverning
  | more bar member _ inductionHypothesis =>
      intro lexeme isMember
      rcases List.mem_append.mp isMember with isLeft | isRight
      · exact member.noGoverning lexeme isLeft
      · rcases List.mem_cons.mp isRight with rfl | isLater
        · rfl
        · exact inductionHypothesis lexeme isLater

theorem TypeBody.noGoverning {lexemes : List Lexeme} {node : Node}
    (derivation : TypeBody lexemes node) :
    ∀ lexeme ∈ lexemes, lexeme.kind.governs = false := by
  cases derivation with
  | member member => exact member.noGoverning
  | union bar place member members => exact (Members.more bar member members).noGoverning

theorem Chain.nonempty {lexemes : List Lexeme} {node : Node} (derivation : Chain lexemes node) :
    ∃ first others, lexemes = first :: others := by
  cases derivation with
  | last operand => exact operand.term.nonempty
  | link text place operand =>
      obtain ⟨first, others, rfl⟩ := operand.term.nonempty
      exact ⟨first, _, rfl⟩

theorem Value.nonempty {lexemes : List Lexeme} {node : Node} (derivation : Value lexemes node) :
    ∃ first others, lexemes = first :: others := by
  cases derivation with
  | term term => exact term.nonempty
  | chain text place operand arithmetic chain =>
      exact (Chain.link text place operand arithmetic chain).nonempty

theorem Chain.value {lexemes : List Lexeme} {node : Node} (derivation : Chain lexemes node) :
    Value lexemes node := by
  cases derivation with
  | last operand => exact .term operand.term
  | link text place operand arithmetic chain =>
      exact .chain text place operand arithmetic chain

theorem TypeBody.nonempty {lexemes : List Lexeme} {node : Node}
    (derivation : TypeBody lexemes node) : ∃ first others, lexemes = first :: others := by
  cases derivation with
  | member member => exact member.nonempty
  | union bar place member =>
      obtain ⟨first, others, rfl⟩ := member.nonempty
      exact ⟨first, _, rfl⟩

theorem FunctionBody.nonempty {lexemes : List Lexeme} {node : Node}
    (derivation : FunctionBody lexemes node) : ∃ first others, lexemes = first :: others := by
  cases derivation with
  | value value => exact value.nonempty
  | block block =>
      cases block
      exact ⟨_, _, rfl⟩

end Grammar

namespace Keyword

def startsInner : Keyword → Bool
  | typeWord | letWord | returnWord => true
  | _ => false

end Keyword

namespace Grammar

theorem Inner.starts {lexemes : List Lexeme} {node : Node} (derivation : Inner lexemes node) :
    ∃ word text others, lexemes = ⟨.keyword word, text⟩ :: others ∧ word.startsInner = true := by
  cases derivation with
  | type declaration =>
      cases declaration
      exact ⟨_, _, _, rfl, rfl⟩
  | binding declaration =>
      cases declaration
      exact ⟨_, _, _, rfl, rfl⟩
  | result result =>
      cases result
      exact ⟨_, _, _, rfl, rfl⟩

theorem Inner.starts_keyword {lexemes : List Lexeme} {node : Node}
    (derivation : Inner lexemes node) :
    ∃ word text others, lexemes = ⟨.keyword word, text⟩ :: others := by
  obtain ⟨word, text, others, split, _⟩ := derivation.starts
  exact ⟨word, text, others, split⟩

theorem Statement.starts_keyword {lexemes : List Lexeme} {node : Node}
    (derivation : Statement lexemes node) :
    ∃ word text others, lexemes = ⟨.keyword word, text⟩ :: others := by
  cases derivation with
  | main main =>
      cases main <;> exact ⟨_, _, _, rfl⟩
  | type declaration =>
      cases declaration
      exact ⟨_, _, _, rfl⟩
  | binding declaration =>
      cases declaration
      exact ⟨_, _, _, rfl⟩
  | function isFun declaration =>
      cases declaration
      exact ⟨_, _, _, rfl⟩

theorem Sequence.length_le {Item : List Lexeme → Node → Prop} {lexemes : List Lexeme}
    {nodes : List Node} (derivation : Sequence Item lexemes nodes)
    (starts : ∀ {lexemes : List Lexeme} {node : Node}, Item lexemes node →
      ∃ word text others, lexemes = ⟨.keyword word, text⟩ :: others) :
    nodes.length ≤ lexemes.length := by
  induction derivation with
  | nil => exact Nat.le_refl _
  | cons item _ inductionHypothesis =>
      obtain ⟨word, text, others, rfl⟩ := starts item
      simp only [List.length_append, List.length_cons]
      omega

end Grammar

end SprigCompiler
