import SprigCompiler.Proofs.Grammar.Lexemes

/-!
Where blocks stand among the lexemes of a program, and what a cut through one leaves.
-/

namespace SprigCompiler.Grammar

inductive Header : List Lexeme → Prop where
  | type {lexemes : List Lexeme} {node : Node} (text : String)
      (declared : Named .typeParameters lexemes node) :
      Header (⟨.keyword .typeWord, text⟩ :: lexemes)
  | binding {lexemes : List Lexeme} {node : Node} (text : String) (declared : Name lexemes node) :
      Header (⟨.keyword .letWord, text⟩ :: lexemes)

theorem Name.named {lexemes : List Lexeme} {node : Node} (derivation : Name lexemes node)
    (form : ApplicationForm) : Named form lexemes node := by
  cases derivation with
  | name text place => exact .name text place

theorem Named.noGoverning {form : ApplicationForm} {lexemes : List Lexeme} {node : Node}
    (derivation : Named form lexemes node) : ∀ lexeme ∈ lexemes, lexeme.kind.governs = false :=
  (Term.named derivation).noGoverning

theorem Name.noGoverning {lexemes : List Lexeme} {node : Node} (derivation : Name lexemes node) :
    ∀ lexeme ∈ lexemes, lexeme.kind.governs = false :=
  (derivation.named .call).noGoverning

theorem Header.tail_noGoverning {lexemes : List Lexeme} (header : Header lexemes) :
    ∃ first others, lexemes = first :: others ∧ first.kind.governs = true ∧
      ∀ lexeme ∈ others, lexeme.kind.governs = false := by
  cases header with
  | type text declared => exact ⟨_, _, rfl, rfl, declared.noGoverning⟩
  | binding text declared => exact ⟨_, _, rfl, rfl, declared.noGoverning⟩

theorem sides_noGoverning {left right : List Lexeme} {sign : Operator} (text : String)
    (lefts : ∀ lexeme ∈ left, lexeme.kind.governs = false)
    (rights : ∀ lexeme ∈ right, lexeme.kind.governs = false) :
    ∀ lexeme ∈ left ++ ⟨.operator sign, text⟩ :: right, lexeme.kind.governs = false := by
  intro lexeme isMember
  rcases List.mem_append.mp isMember with isLeft | isRight
  · exact lefts lexeme isLeft
  · rcases List.mem_cons.mp isRight with rfl | isLater
    · rfl
    · exact rights lexeme isLater

theorem Inner.tail_noGoverning {lexemes : List Lexeme} {node : Node}
    (derivation : Inner lexemes node) :
    ∃ word text others, lexemes = ⟨.keyword word, text⟩ :: others ∧ word.startsInner = true ∧
      ∀ lexeme ∈ others, lexeme.kind.governs = false := by
  cases derivation with
  | type declaration =>
      cases declaration with
      | declare text equals place extent declared body =>
          exact ⟨_, text, _, rfl, rfl,
            sides_noGoverning equals declared.noGoverning body.noGoverning⟩
  | binding declaration =>
      cases declaration with
      | declare text equals place extent declared body =>
          exact ⟨_, text, _, rfl, rfl,
            sides_noGoverning equals declared.noGoverning body.noGoverning⟩
  | result result =>
      cases result with
      | value text place value => exact ⟨_, text, _, rfl, rfl, value.noGoverning⟩

/-- A header at the end of a statement is the whole statement. -/
theorem Header.eq_of_suffix {header others : List Lexeme} {first : Lexeme}
    (derivation : Header header) (plain : ∀ lexeme ∈ others, lexeme.kind.governs = false)
    (ending : header <:+ first :: others) : header = first :: others := by
  rcases List.suffix_cons_iff.mp ending with whole | later
  · exact whole
  · obtain ⟨start, rest, rfl, governs, _⟩ := derivation.tail_noGoverning
    have refused := plain start (later.mem List.mem_cons_self)
    rw [governs] at refused
    cases refused

/-- A header at the end of several statements is at the end of the last one. -/
theorem Header.suffix_append {header front more : List Lexeme} {first : Lexeme}
    (derivation : Header header) (governs : first.kind.governs = true) :
    header <:+ front ++ first :: more ↔ header <:+ first :: more := by
  constructor
  · intro ending
    rcases List.suffix_or_suffix_of_suffix ending (List.suffix_append front (first :: more)) with
      inside | outside
    · exact inside
    · obtain ⟨start, rest, rfl, _, plain⟩ := derivation.tail_noGoverning
      rcases List.suffix_cons_iff.mp outside with whole | later
      · exact ⟨[], whole.symm⟩
      · have refused := plain first (later.mem List.mem_cons_self)
        rw [governs] at refused
        cases refused
  · intro ending
    exact ending.trans (List.suffix_append front (first :: more))

/-- What stands before the opening brace of a block: statements, and the declaration of a function
up to its body. -/
inductive Opened : List Lexeme → Prop where
  | function {lexemes declared : List Lexeme} {nodes : List Node} {node : Node} {word : Keyword}
      (text equals : String) (earlier : Sequence Statement lexemes nodes)
      (oneMain : nodes.countP Node.isMain ≤ 1) (isFun : word.isFun = true)
      (header : Named .functionParameters declared node) :
      Opened (lexemes ++ ⟨.keyword word, text⟩ :: (declared ++ [⟨.operator .assign, equals⟩]))

/-- What stands behind the opening brace of a block: statements, a closing brace, and more. -/
inductive Closed : List Lexeme → Prop where
  | brace {lexemes : List Lexeme} {nodes : List Node} (stop : String) (after : List Lexeme)
      (items : Sequence Inner lexemes nodes) :
      Closed (lexemes ++ ⟨.closeBrace, stop⟩ :: after)

theorem split_append {first second front behind : List Lexeme} {sign : Lexeme}
    (same : first ++ second = front ++ sign :: behind) :
    (∃ rest, front = first ++ rest ∧ second = rest ++ sign :: behind) ∨
      ∃ rest, first = front ++ sign :: rest ∧ behind = rest ++ second := by
  rcases List.append_eq_append_iff.mp same with ⟨rest, isFront, isSecond⟩ | ⟨rest, isFirst, isSign⟩
  · exact .inl ⟨rest, isFront, isSecond⟩
  · cases rest with
    | nil =>
        refine .inl ⟨[], ?_, isSign.symm⟩
        rw [isFirst, List.append_nil, List.append_nil]
    | cons lexeme rest =>
        obtain ⟨rfl, isBehind⟩ := List.cons.inj isSign
        exact .inr ⟨rest, isFirst, isBehind⟩

theorem split_append_of_not_mem {first second front behind : List Lexeme} {sign : Lexeme}
    (same : first ++ second = front ++ sign :: behind) (outside : sign ∉ first) :
    ∃ rest, front = first ++ rest ∧ second = rest ++ sign :: behind := by
  rcases split_append same with later | ⟨rest, isFirst, _⟩
  · exact later
  · rw [isFirst] at outside
    exact absurd (List.mem_append_right _ List.mem_cons_self) outside

private theorem not_mem_of_noGoverning {lexemes : List Lexeme} {brace : Lexeme}
    (isBrace : brace.kind = .openBrace)
    (plain : ∀ lexeme ∈ lexemes, lexeme.kind.governs = false) : brace ∉ lexemes := by
  intro isMember
  have refused := plain brace isMember
  rw [isBrace] at refused
  cases refused

private theorem not_mem_of_items {lexemes : List Lexeme} {nodes : List Node} {brace : Lexeme}
    (isBrace : brace.kind = .openBrace) (items : Sequence Inner lexemes nodes) :
    brace ∉ lexemes := by
  induction items with
  | nil => exact List.not_mem_nil
  | cons inner _ inductionHypothesis =>
      obtain ⟨word, text, others, rfl, _, plain⟩ := inner.tail_noGoverning
      intro isMember
      rcases List.mem_append.mp isMember with isInner | isLater
      · rcases List.mem_cons.mp isInner with rfl | isOther
        · cases isBrace
        · exact not_mem_of_noGoverning isBrace plain isOther
      · exact inductionHypothesis isLater

/-- A declaration has an opening brace on its right side only. -/
theorem Declaration.brace_right {word : Keyword} {form : StatementForm}
    {Left Right : List Lexeme → Node → Prop} {front behind : List Lexeme} {brace : Lexeme}
    {lexemes : List Lexeme} {tree : Node} (derivation : Declaration word form Left Right lexemes tree)
    (lefts : ∀ {lexemes : List Lexeme} {node : Node}, Left lexemes node →
      ∀ lexeme ∈ lexemes, lexeme.kind.governs = false)
    (split : lexemes = front ++ brace :: behind) (isBrace : brace.kind = .openBrace) :
    ∃ text declared node equals rest right body,
      front = ⟨.keyword word, text⟩ :: (declared ++ ⟨.operator .assign, equals⟩ :: rest) ∧
        Left declared node ∧ Right right body ∧ right = rest ++ brace :: behind := by
  cases derivation with
  | @declare declared right node body text equals place extent left rights =>
      have outside : brace ∉ ⟨.keyword word, text⟩ :: (declared ++ [⟨.operator .assign, equals⟩]) := by
        intro isMember
        rcases List.mem_cons.mp isMember with rfl | isLater
        · cases isBrace
        · refine not_mem_of_noGoverning isBrace ?_ isLater
          exact sides_noGoverning equals (lefts left) nofun
      have same : ⟨.keyword word, text⟩ :: (declared ++ [⟨.operator .assign, equals⟩]) ++ right =
          front ++ brace :: behind := by
        rw [← split, List.cons_append, List.append_assoc]
        rfl
      obtain ⟨rest, isFront, isRight⟩ := split_append_of_not_mem same outside
      refine ⟨text, declared, node, equals, rest, right, body, ?_, left, rights, isRight⟩
      rw [isFront, List.cons_append, List.append_assoc]
      rfl

private theorem Main.noBrace {lexemes : List Lexeme} {tree : Node} {brace : Lexeme}
    (derivation : Main lexemes tree) (isBrace : brace.kind = .openBrace) : brace ∉ lexemes := by
  intro isMember
  cases derivation with
  | name text name place =>
      rcases List.mem_cons.mp isMember with rfl | isLater
      · cases isBrace
      · have plain : ∀ lexeme ∈ [(⟨.identifier, name⟩ : Lexeme)], lexeme.kind.governs = false :=
          (Name.name name place).noGoverning
        exact not_mem_of_noGoverning isBrace plain isLater
  | application text name place extent whole arguments =>
      rcases List.mem_cons.mp isMember with rfl | isLater
      · cases isBrace
      · have named := Named.application name place extent arguments
        exact not_mem_of_noGoverning isBrace named.noGoverning isLater

private theorem FunctionBody.opened {lexemes front behind : List Lexeme} {tree : Node}
    {brace : Lexeme} (derivation : FunctionBody lexemes tree)
    (split : lexemes = front ++ brace :: behind) (isBrace : brace.kind = .openBrace) :
    front = [] ∧ ∃ items nodes stop,
      Sequence Inner items nodes ∧ behind = items ++ [⟨.closeBrace, stop⟩] := by
  have isMember : brace ∈ lexemes := by
    rw [split]
    exact List.mem_append_right _ List.mem_cons_self
  cases derivation with
  | value value => exact absurd isMember (not_mem_of_noGoverning isBrace value.noGoverning)
  | block block =>
      cases block with
      | @braces items nodes start stop place inners =>
          cases front with
          | nil =>
              obtain ⟨_, isBehind⟩ := List.cons.inj split
              exact ⟨rfl, items, nodes, stop, inners, isBehind.symm⟩
          | cons first front =>
              obtain ⟨_, follow⟩ := List.cons.inj split
              have inside : brace ∈ items ++ [⟨.closeBrace, stop⟩] := by
                rw [follow]
                exact List.mem_append_right _ List.mem_cons_self
              rcases List.mem_append.mp inside with isItem | isLast
              · exact absurd isItem (not_mem_of_items isBrace inners)
              · rw [List.mem_singleton.mp isLast] at isBrace
                cases isBrace

private theorem Statement.opened {lexemes front behind : List Lexeme} {tree : Node} {brace : Lexeme}
    (derivation : Statement lexemes tree) (split : lexemes = front ++ brace :: behind)
    (isBrace : brace.kind = .openBrace) :
    ∃ word text declared node equals items nodes stop,
      front = ⟨.keyword word, text⟩ :: (declared ++ [⟨.operator .assign, equals⟩]) ∧
        word.isFun = true ∧ Named .functionParameters declared node ∧
        Sequence Inner items nodes ∧ behind = items ++ [⟨.closeBrace, stop⟩] := by
  cases derivation with
  | main main =>
      have isMember : brace ∈ lexemes := by
        rw [split]
        exact List.mem_append_right _ List.mem_cons_self
      exact absurd isMember (main.noBrace isBrace)
  | type declaration =>
      obtain ⟨_, _, _, _, rest, right, body, _, _, derivation, isRight⟩ :=
        declaration.brace_right Named.noGoverning split isBrace
      have isMember : brace ∈ right := by
        rw [isRight]
        exact List.mem_append_right _ List.mem_cons_self
      exact absurd isMember (not_mem_of_noGoverning isBrace derivation.noGoverning)
  | binding declaration =>
      obtain ⟨_, _, _, _, rest, right, body, _, _, derivation, isRight⟩ :=
        declaration.brace_right Name.noGoverning split isBrace
      have isMember : brace ∈ right := by
        rw [isRight]
        exact List.mem_append_right _ List.mem_cons_self
      exact absurd isMember (not_mem_of_noGoverning isBrace derivation.noGoverning)
  | @function word isFun declaration =>
      obtain ⟨text, declared, node, equals, rest, right, body, isFront, header, derivation, isRight⟩ :=
        declaration.brace_right Named.noGoverning split isBrace
      obtain ⟨rfl, items, nodes, stop, inners, isBehind⟩ := derivation.opened isRight isBrace
      exact ⟨word, text, declared, node, equals, items, nodes, stop, isFront, isFun, header, inners,
        isBehind⟩

/-- Every lexeme of a row of items belongs to one of them. -/
theorem Sequence.locate {Item : List Lexeme → Node → Prop} {lexemes front behind : List Lexeme}
    {trees : List Node} {sign : Lexeme} (derivation : Sequence Item lexemes trees)
    (split : lexemes = front ++ sign :: behind) :
    ∃ earlier before inside after nodes node others, front = earlier ++ before ∧
      behind = inside ++ after ∧ trees = nodes ++ node :: others ∧
      Sequence Item earlier nodes ∧ Item (before ++ sign :: inside) node := by
  induction derivation generalizing front with
  | nil =>
      have isMember : sign ∈ ([] : List Lexeme) := by
        rw [split]
        exact List.mem_append_right _ List.mem_cons_self
      cases isMember
  | @cons first rest tree trees item items inductionHypothesis =>
      rcases split_append split with ⟨between, rfl, isRest⟩ | ⟨within, rfl, isBehind⟩
      · obtain ⟨earlier, before, inside, after, nodes, node, others, rfl, isBehind, rfl, sequence,
          found⟩ := inductionHypothesis isRest
        refine ⟨first ++ earlier, before, inside, after, tree :: nodes, node, others, ?_, isBehind,
          rfl, .cons item sequence, found⟩
        rw [List.append_assoc]
      · exact ⟨[], front, within, rest, [], tree, trees, rfl, isBehind, rfl, .nil, item⟩

theorem Sequence.opened {lexemes front behind : List Lexeme} {trees : List Node} {brace : Lexeme}
    (derivation : Sequence Statement lexemes trees) (oneMain : trees.countP Node.isMain ≤ 1)
    (split : lexemes = front ++ brace :: behind) (isBrace : brace.kind = .openBrace) :
    Opened front ∧ Closed behind := by
  obtain ⟨earlier, before, inside, after, nodes, node, others, rfl, rfl, rfl, sequence, statement⟩ :=
    derivation.locate split
  obtain ⟨word, text, declared, name, equals, items, inners, stop, rfl, isFun, header, inner, rfl⟩ :=
    statement.opened rfl isBrace
  rw [List.countP_append] at oneMain
  constructor
  · exact .function text equals sequence (by omega) isFun header
  · rw [List.append_assoc]
    exact .brace stop after inner

end SprigCompiler.Grammar
