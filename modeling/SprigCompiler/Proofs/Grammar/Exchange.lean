import SprigCompiler.Proofs.Grammar.Blocks

/-!
Exchanging the arguments of an application.

Where a name with arguments can stand, what is before and behind it are no parts of arguments.  So
the arguments of the name are all the lexemes between it and what follows, and writing them in
another way leaves the rest of a derivation as it is.
-/

namespace SprigCompiler.Grammar

def nearest (outer : Option TokenKind) (lexemes : List Lexeme) : Option TokenKind :=
  lexemes.foldl (fun found lexeme => if lexeme.kind.governs then some lexeme.kind else found) outer

/-- Whether a name can mean an application of a form behind a keyword or brace: behind `type` it
means a type. -/
def Fits (governing : Option TokenKind) (form : ApplicationForm) : Prop :=
  governing = some (.keyword .typeWord) → form = .typeParameters ∨ form = .instantiation

/-- Whether two rows of lexemes are the same but for the arguments of one application.  They derive
the same nodes before and after. -/
inductive Exchange (outer : Option TokenKind) : List Lexeme → List Lexeme → Prop where
  | here {before behind first second : List Lexeme} (head : Lexeme)
      (place : ∀ last ∈ before.getLast?, last.kind.inArguments = false)
      (isName : head.kind = .identifier) (nonempty : first ≠ [])
      (inside : ∀ lexeme ∈ first, lexeme.kind.inArguments = true)
      (follow : ∀ next ∈ behind.head?, next.kind.inArguments = false)
      (same : ∀ (form : ApplicationForm) (nodes : List Node), Fits (nearest outer before) form →
        Arguments form first nodes → Arguments form second nodes) :
      Exchange outer (before ++ head :: (first ++ behind)) (before ++ head :: (second ++ behind))

variable {outer : Option TokenKind} {lexemes others first second : List Lexeme} {sign : Lexeme}
  {node : Node}

private theorem nearest_append (outer : Option TokenKind) (first second : List Lexeme) :
    nearest outer (first ++ second) = nearest (nearest outer first) second :=
  List.foldl_append

private theorem nearest_of_noGoverning (plain : ∀ lexeme ∈ lexemes, lexeme.kind.governs = false) :
    nearest outer lexemes = outer := by
  induction lexemes generalizing outer with
  | nil => rfl
  | cons lexeme rest inductionHypothesis =>
      have noGoverning := plain lexeme List.mem_cons_self
      unfold nearest
      rw [List.foldl_cons, noGoverning]
      exact inductionHypothesis fun other isMember => plain other (List.mem_cons_of_mem _ isMember)

private theorem nearest_snoc {operator : Operator} (text : String)
    (plain : ∀ lexeme ∈ lexemes, lexeme.kind.governs = false) :
    nearest outer (lexemes ++ [⟨.operator operator, text⟩]) = outer := by
  rw [nearest_append, nearest_of_noGoverning plain]
  rfl

private theorem sign_not_mem (isSign : sign.kind.inArguments = false)
    (inside : ∀ lexeme ∈ lexemes, lexeme.kind.inArguments = true) : sign ∉ lexemes := by
  intro isMember
  have refused := inside sign isMember
  rw [isSign] at refused
  cases refused

/-- A sign parts an exchange: it is before the sign or behind it. -/
theorem Exchange.of_sign (exchange : Exchange outer lexemes others)
    (split : lexemes = first ++ sign :: second) (isSign : sign.kind.inArguments = false) :
    (∃ other, others = other ++ sign :: second ∧ Exchange outer first other) ∨
      ∃ other, others = first ++ sign :: other ∧
        Exchange (nearest outer (first ++ [sign])) second other := by
  cases exchange with
  | @here before behind args args' head place isName nonempty inside follow same =>
      rcases split_append split with ⟨rest, rfl, isRest⟩ | ⟨rest, rfl, rfl⟩
      -- The sign is behind `before`, and neither the name nor its arguments are signs.
      · have outside : sign ∉ head :: args := by
          apply sign_not_mem isSign
          intro lexeme isMember
          rcases List.mem_cons.mp isMember with rfl | isLater
          · rw [isName]
            rfl
          · exact inside lexeme isLater
        obtain ⟨rest, rfl, rfl⟩ := @split_append_of_not_mem (head :: args) behind _ _ _ isRest outside
        have followRest : ∀ next ∈ rest.head?, next.kind.inArguments = false := by
          intro next isNext
          cases rest with
          | nil => cases isNext
          | cons lexeme rest => exact follow next isNext
        refine .inl ⟨before ++ head :: (args' ++ rest), ?_, ?_⟩
        · simp only [List.append_assoc, List.cons_append]
        · exact .here head place isName nonempty inside followRest same
      · have placeRest : ∀ last ∈ rest.getLast?, last.kind.inArguments = false := by
          intro last isLast
          cases rest with
          | nil => cases isLast
          | cons lexeme rest =>
              apply place last
              rw [List.getLast?_append, List.getLast?_cons_cons]
              exact Option.mem_def.mpr (by rw [Option.mem_def.mp isLast]; rfl)
        refine .inr ⟨rest ++ head :: (args' ++ behind), ?_, ?_⟩
        · simp only [List.append_assoc, List.cons_append]
        · refine .here head placeRest isName nonempty inside follow ?_
          rw [← nearest_append, List.append_assoc]
          exact same

private theorem not_exchange_nil : ¬Exchange outer [] others := by
  intro exchange
  generalize empty : ([] : List Lexeme) = lexemes at exchange
  cases exchange with
  | here => simp at empty

/-- Among lexemes without signs the first one is the name whose arguments are exchanged. -/
theorem Exchange.of_noSign (exchange : Exchange outer lexemes others)
    (plain : ∀ lexeme ∈ lexemes, lexeme.kind.inArguments = true) :
    ∃ head args args', lexemes = head :: args ∧ others = head :: args' ∧ args ≠ [] ∧
      ∀ form nodes, Fits outer form → Arguments form args nodes → Arguments form args' nodes := by
  cases exchange with
  | @here before behind args args' head place isName nonempty inside follow same =>
      have noBefore : before = [] := by
        cases isLast : before.getLast? with
        | none => exact List.getLast?_eq_none_iff.mp isLast
        | some last =>
            have isMember : last ∈ before := List.mem_of_getLast? isLast
            have isInside := plain last (List.mem_append_left _ isMember)
            rw [place last isLast] at isInside
            cases isInside
      have noBehind : behind = [] := by
        cases behind with
        | nil => rfl
        | cons next behind =>
            have isInside := plain next (by simp)
            rw [follow next rfl] at isInside
            cases isInside
      subst noBefore noBehind
      rw [List.append_nil, List.append_nil]
      exact ⟨head, args, args', rfl, rfl, nonempty, same⟩

private theorem Exchange.cons (isSign : sign.kind.inArguments = false)
    (exchange : Exchange (nearest outer [sign]) lexemes others) :
    Exchange outer (sign :: lexemes) (sign :: others) := by
  cases exchange with
  | @here before behind args args' head place isName nonempty inside follow same =>
      have placeCons : ∀ last ∈ (sign :: before).getLast?, last.kind.inArguments = false := by
        intro last isLast
        cases before with
        | nil =>
            cases isLast
            exact isSign
        | cons lexeme before => exact place last (by rwa [List.getLast?_cons_cons] at isLast)
      exact @Exchange.here _ (sign :: before) _ _ _ head placeCons isName nonempty inside follow same

private theorem Exchange.of_cons (exchange : Exchange outer (sign :: lexemes) others)
    (isSign : sign.kind.inArguments = false) :
    ∃ other, others = sign :: other ∧ Exchange (nearest outer [sign]) lexemes other := by
  have split : sign :: lexemes = [] ++ sign :: lexemes := rfl
  rcases exchange.of_sign split isSign with ⟨_, _, inNothing⟩ | ⟨other, rfl, inRest⟩
  · exact absurd inNothing not_exchange_nil
  · exact ⟨other, rfl, inRest⟩

/-- An exchange in two rows, the second of which starts with a sign, is in one of them. -/
theorem Exchange.of_append (exchange : Exchange outer (first ++ second) others)
    (starts : second = [] ∨ ∃ sign rest, second = sign :: rest ∧ sign.kind.inArguments = false) :
    (∃ other, others = other ++ second ∧ Exchange outer first other) ∨
      ∃ other, others = first ++ other ∧ Exchange (nearest outer first) second other := by
  rcases starts with rfl | ⟨sign, rest, rfl, isSign⟩
  · rw [List.append_nil] at exchange
    exact .inl ⟨others, (List.append_nil others).symm, exchange⟩
  · rcases exchange.of_sign rfl isSign with inFirst | ⟨other, rfl, inRest⟩
    · exact .inl inFirst
    · rw [nearest_append] at inRest
      exact .inr ⟨sign :: other, rfl, inRest.cons isSign⟩

private theorem Named.exchange {form : ApplicationForm} (derivation : Named form lexemes node)
    (exchange : Exchange outer lexemes others) (fits : Fits outer form) :
    Named form others node := by
  obtain ⟨head, args, args', isLexemes, rfl, nonempty, same⟩ :=
    exchange.of_noSign derivation.inArguments
  cases derivation with
  | name =>
      cases isLexemes
      exact absurd rfl nonempty
  | application text place extent arguments =>
      cases isLexemes
      exact .application text place extent (same form _ fits arguments)

private theorem not_exchange_singleton (inside : sign.kind.inArguments = true) :
    ¬Exchange outer [sign] others := by
  intro exchange
  have plain : ∀ lexeme ∈ [sign], lexeme.kind.inArguments = true := by
    intro lexeme isMember
    rw [List.mem_singleton.mp isMember]
    exact inside
  obtain ⟨head, args, args', isLexemes, rfl, nonempty, _⟩ := exchange.of_noSign plain
  cases isLexemes
  exact nonempty rfl

private theorem Term.exchange {form : ApplicationForm} (derivation : Term form lexemes node)
    (exchange : Exchange outer lexemes others) (fits : Fits outer form) :
    Term form others node := by
  cases derivation with
  | named named => exact .named (named.exchange exchange fits)
  | literal literal => exact absurd exchange (not_exchange_singleton literal.inArguments)

private theorem Operand.exchange (derivation : Operand lexemes node)
    (exchange : Exchange outer lexemes others) (fits : Fits outer .call) :
    Operand others node := by
  cases derivation with
  | named named => exact .named (named.exchange exchange fits)
  | number literal => exact absurd exchange (not_exchange_singleton literal.inArguments)

private theorem Chain.exchange (derivation : Chain lexemes node)
    (exchange : Exchange outer lexemes others) (fits : Fits outer .call) :
    Chain others node := by
  -- An operator parts an exchange, and operands hold nothing that governs.
  induction derivation generalizing others with
  | last operand => exact .last (operand.exchange exchange fits)
  | link text place operand arithmetic chain inductionHypothesis =>
      rcases exchange.of_sign rfl rfl with ⟨other, rfl, inOperand⟩ | ⟨other, rfl, inRest⟩
      · exact .link text place (operand.exchange inOperand fits) arithmetic chain
      · rw [nearest_snoc text operand.term.noGoverning] at inRest
        exact .link text place operand arithmetic (inductionHypothesis inRest)

private theorem Value.exchange (derivation : Value lexemes node)
    (exchange : Exchange outer lexemes others) (fits : Fits outer .call) :
    Value others node := by
  cases derivation with
  | term term => exact .term (term.exchange exchange fits)
  | chain text place operand arithmetic chain =>
      exact (Chain.link text place operand arithmetic chain).exchange exchange fits |>.value

private theorem Members.exchange {form : ApplicationForm} {nodes : List Node}
    (derivation : Members form lexemes nodes) (exchange : Exchange outer lexemes others)
    (fits : Fits outer form) : Members form others nodes := by
  induction derivation generalizing others with
  | nothing => exact absurd exchange not_exchange_nil
  | last member => exact .last (member.exchange exchange fits)
  | more bar member members inductionHypothesis =>
      rcases exchange.of_sign rfl rfl with ⟨other, rfl, inMember⟩ | ⟨other, rfl, inRest⟩
      · exact .more bar (member.exchange inMember fits) members
      · rw [nearest_snoc bar member.noGoverning] at inRest
        exact .more bar member (inductionHypothesis inRest)

private theorem fits_instantiation : Fits outer .instantiation := fun _ => .inr rfl

private theorem TypeBody.exchange (derivation : TypeBody lexemes node)
    (exchange : Exchange outer lexemes others) : TypeBody others node := by
  cases derivation with
  | member member => exact .member (member.exchange exchange fits_instantiation)
  | union bar place member members =>
      rcases exchange.of_sign rfl rfl with ⟨other, rfl, inMember⟩ | ⟨other, rfl, inRest⟩
      · exact .union bar place (member.exchange inMember fits_instantiation) members
      · exact .union bar place member (members.exchange inRest fits_instantiation)

def Exchanges (governing : Option TokenKind) (Rule : List Lexeme → Node → Prop) : Prop :=
  ∀ {lexemes others : List Lexeme} {node : Node}, Rule lexemes node →
    Exchange governing lexemes others → Rule others node

private theorem Declaration.exchange {word : Keyword} {form : StatementForm}
    {Left Right : List Lexeme → Node → Prop}
    (derivation : Declaration word form Left Right lexemes node)
    (exchange : Exchange outer lexemes others)
    (plain : ∀ {lexemes : List Lexeme} {node : Node}, Left lexemes node →
      ∀ lexeme ∈ lexemes, lexeme.kind.governs = false)
    (lefts : Exchanges (some (.keyword word)) Left)
    (rights : Exchanges (some (.keyword word)) Right) :
    Declaration word form Left Right others node := by
  cases derivation with
  | declare text equals place extent declared body =>
      obtain ⟨other, rfl, behindWord⟩ := exchange.of_cons rfl
      rcases behindWord.of_sign rfl rfl with ⟨left, rfl, inLeft⟩ | ⟨right, rfl, inRight⟩
      · exact .declare text equals place extent (lefts declared inLeft) body
      · rw [nearest_snoc equals (plain declared)] at inRight
        exact .declare text equals place extent declared (rights body inRight)

private theorem Name.exchange (derivation : Name lexemes node)
    (exchange : Exchange outer lexemes others) : Name others node := by
  cases derivation with
  | name => exact absurd exchange (not_exchange_singleton rfl)

private theorem TypeDeclaration.exchange (derivation : TypeDeclaration lexemes node)
    (exchange : Exchange outer lexemes others) : TypeDeclaration others node :=
  Declaration.exchange derivation exchange Named.noGoverning
    (fun declared inLeft => declared.exchange inLeft fun _ => .inl rfl) TypeBody.exchange

private theorem LetDeclaration.exchange (derivation : LetDeclaration lexemes node)
    (exchange : Exchange outer lexemes others) : LetDeclaration others node :=
  Declaration.exchange derivation exchange Name.noGoverning Name.exchange
    fun body inRight => body.exchange inRight nofun

private theorem Return.exchange (derivation : Return lexemes node)
    (exchange : Exchange outer lexemes others) : Return others node := by
  cases derivation with
  | value text place value =>
      obtain ⟨other, rfl, behindWord⟩ := exchange.of_cons rfl
      exact .value text place (value.exchange behindWord nofun)

private theorem Inner.exchange (derivation : Inner lexemes node)
    (exchange : Exchange outer lexemes others) : Inner others node := by
  cases derivation with
  | type declaration => exact .type (TypeDeclaration.exchange declaration exchange)
  | binding declaration => exact .binding (LetDeclaration.exchange declaration exchange)
  | result result => exact .result (result.exchange exchange)

private theorem Sequence.starts {Item : List Lexeme → Node → Prop} {nodes : List Node}
    (derivation : Sequence Item lexemes nodes)
    (items : ∀ {lexemes : List Lexeme} {node : Node}, Item lexemes node →
      ∃ word text others, lexemes = ⟨.keyword word, text⟩ :: others) :
    lexemes = [] ∨ ∃ sign rest, lexemes = sign :: rest ∧ sign.kind.inArguments = false := by
  cases derivation with
  | nil => exact .inl rfl
  | cons item _ =>
      obtain ⟨word, text, others, rfl⟩ := items item
      exact .inr ⟨_, _, rfl, rfl⟩

private theorem Sequence.exchange {Item : List Lexeme → Node → Prop} {nodes : List Node}
    (derivation : Sequence Item lexemes nodes) (exchange : Exchange outer lexemes others)
    (starts : ∀ {lexemes : List Lexeme} {node : Node}, Item lexemes node →
      ∃ word text others, lexemes = ⟨.keyword word, text⟩ :: others)
    (items : ∀ governing, Exchanges governing Item) : Sequence Item others nodes := by
  induction derivation generalizing outer others with
  | nil => exact absurd exchange not_exchange_nil
  | cons item sequence inductionHypothesis =>
      rcases exchange.of_append (sequence.starts starts) with
        ⟨other, rfl, inItem⟩ | ⟨other, rfl, inRest⟩
      · exact .cons (items outer item inItem) sequence
      · exact .cons item (inductionHypothesis inRest)

private theorem Block.exchange (derivation : Block lexemes node)
    (exchange : Exchange outer lexemes others) : Block others node := by
  cases derivation with
  | braces start stop place items =>
      obtain ⟨other, rfl, behindBrace⟩ := exchange.of_cons rfl
      rcases behindBrace.of_sign rfl rfl with ⟨inside, rfl, inItems⟩ | ⟨_, _, inNothing⟩
      · exact .braces start stop place
          (items.exchange inItems Inner.starts_keyword fun _ => Inner.exchange)
      · exact absurd inNothing not_exchange_nil

private theorem FunctionBody.exchange (derivation : FunctionBody lexemes node)
    (exchange : Exchange outer lexemes others) (fits : Fits outer .call) :
    FunctionBody others node := by
  cases derivation with
  | value value => exact .value (value.exchange exchange fits)
  | block block => exact .block (block.exchange exchange)

private theorem FunctionDeclaration.exchange {word : Keyword} (isFun : word.isFun = true)
    (derivation : FunctionDeclaration word lexemes node)
    (exchange : Exchange outer lexemes others) : FunctionDeclaration word others node := by
  have fits : ∀ form, Fits (some (.keyword word)) form := by
    intro form isType
    cases isType
    cases isFun
  exact Declaration.exchange derivation exchange Named.noGoverning
    (fun declared inLeft => declared.exchange inLeft (fits _))
    fun body inRight => body.exchange inRight (fits _)

private theorem Main.exchange (derivation : Main lexemes node)
    (exchange : Exchange outer lexemes others) : Main others node := by
  cases derivation with
  | name =>
      obtain ⟨other, rfl, behindWord⟩ := exchange.of_cons rfl
      exact absurd behindWord (not_exchange_singleton rfl)
  | application text name place extent whole arguments =>
      obtain ⟨other, rfl, behindWord⟩ := exchange.of_cons rfl
      have named := Named.application name place extent arguments
      have exchanged := named.exchange behindWord nofun
      cases exchanged with
      | application _ _ _ arguments => exact .application text name place extent whole arguments

private theorem Statement.exchange (derivation : Statement lexemes node)
    (exchange : Exchange outer lexemes others) : Statement others node := by
  cases derivation with
  | main main => exact .main (main.exchange exchange)
  | type declaration => exact .type (TypeDeclaration.exchange declaration exchange)
  | binding declaration => exact .binding (LetDeclaration.exchange declaration exchange)
  | function isFun declaration =>
      exact .function isFun (FunctionDeclaration.exchange isFun declaration exchange)

/-- Exchanging the arguments of one application leaves the tree of a program as it is. -/
theorem Program.exchange (derivation : Program lexemes node)
    (exchange : Exchange none lexemes others) : Program others node := by
  cases derivation with
  | statements place items oneMain =>
      refine .statements place ?_ oneMain
      exact items.exchange exchange Statement.starts_keyword fun _ => Statement.exchange

/-! ### Ways to write arguments -/

def delimited (opening closing : Lexeme) (row : List Lexeme) : List Lexeme :=
  opening :: (row.intersperse ⟨.comma, ","⟩ ++ [closing])

theorem listed_intersperse_iff {row : List Lexeme} {nodes : List Node} (nonempty : row ≠ []) :
    Listed (row.intersperse ⟨.comma, ","⟩) nodes ↔ List.Forall₂ Atom row nodes := by
  induction row generalizing nodes with
  | nil => exact absurd rfl nonempty
  | cons first others inductionHypothesis =>
      cases others with
      | nil =>
          rw [List.intersperse_singleton]
          constructor
          · intro listed
            cases listed with
            | last atom => exact .cons atom .nil
          · intro atoms
            cases atoms with
            | cons atom rest =>
                cases rest
                exact .last atom
      | cons second others =>
          rw [List.intersperse_cons_cons]
          constructor
          · intro listed
            cases listed with
            | more _ atom rest =>
                exact .cons atom ((inductionHypothesis (List.cons_ne_nil _ _)).mp rest)
          · intro atoms
            cases atoms with
            | cons atom rest =>
                exact .more "," atom ((inductionHypothesis (List.cons_ne_nil _ _)).mpr rest)

private theorem Arguments.row_iff {form : ApplicationForm} {row : List Lexeme} {nodes : List Node}
    (nonempty : row ≠ []) (atoms : ∀ lexeme ∈ row, lexeme.kind.isAtom = true) :
    Arguments form row nodes ↔ List.Forall₂ Atom row nodes := by
  constructor
  · intro arguments
    cases arguments with
    | row first rest => exact .cons first rest
    | empty start stop delimiters =>
        have isAtom := atoms _ List.mem_cons_self
        cases delimiters <;> cases isAtom
    | listed start stop delimiters =>
        have isAtom := atoms _ List.mem_cons_self
        cases delimiters <;> cases isAtom
  · intro derivations
    cases derivations with
    | nil => exact absurd rfl nonempty
    | cons first rest => exact .row first rest

private theorem Arguments.of_delimited {form : ApplicationForm} {row : List Lexeme}
    {nodes : List Node} {opening closing : Lexeme} (nonempty : row ≠ [])
    (noAtom : opening.kind.isAtom = false)
    (arguments : Arguments form (delimited opening closing row) nodes) :
    List.Forall₂ Atom row nodes := by
  generalize isDelimited : delimited opening closing row = lexemes at arguments
  unfold delimited at isDelimited
  cases arguments with
  | row first =>
      have isAtom := first.isAtom
      rw [← (List.cons.inj isDelimited).1, noAtom] at isAtom
      cases isAtom
  | empty =>
      have noRow := congrArg List.length (List.cons.inj isDelimited).2
      have isPositive : 0 < row.length := List.length_pos_iff.mpr nonempty
      simp only [List.length_append, List.length_intersperse, List.length_singleton] at noRow
      omega
  | listed start stop delimiters listed =>
      obtain ⟨isRow, _⟩ := List.append_inj' (List.cons.inj isDelimited).2 rfl
      rw [← isRow] at listed
      exact (listed_intersperse_iff nonempty).mp listed

private theorem Arguments.delimited {form : ApplicationForm} {row : List Lexeme} {nodes : List Node}
    {opening closing : Lexeme} (nonempty : row ≠ [])
    (delimiters : Delimiters form opening.kind closing.kind)
    (atoms : List.Forall₂ Atom row nodes) :
    Arguments form (delimited opening closing row) nodes :=
  .listed opening.text closing.text delimiters ((listed_intersperse_iff nonempty).mpr atoms)

private theorem Delimiters.inArguments {form : ApplicationForm} {opening closing : TokenKind}
    (delimiters : Delimiters form opening closing) :
    opening.inArguments = true ∧ closing.inArguments = true ∧ opening.isAtom = false := by
  cases delimiters <;> exact ⟨rfl, rfl, rfl⟩

private theorem inArguments_of_mem_intersperse {row : List Lexeme} {lexeme : Lexeme}
    (atoms : ∀ lexeme ∈ row, lexeme.kind.isAtom = true)
    (isMember : lexeme ∈ row.intersperse ⟨.comma, ","⟩) : lexeme.kind.inArguments = true := by
  induction row with
  | nil => cases isMember
  | cons first others inductionHypothesis =>
      have firstInside := TokenKind.inArguments_of_isAtom (atoms first List.mem_cons_self)
      cases others with
      | nil =>
          rw [List.intersperse_singleton, List.mem_singleton] at isMember
          rwa [isMember]
      | cons second others =>
          rw [List.intersperse_cons_cons] at isMember
          rcases List.mem_cons.mp isMember with rfl | isLater
          · exact firstInside
          · rcases List.mem_cons.mp isLater with rfl | isLater
            · rfl
            · exact inductionHypothesis (fun other among => atoms other (.tail _ among)) isLater

/-- Where a name with arguments can stand, its arguments can be written in a row or between
delimiters: the program has the same trees. -/
theorem program_delimited_iff {before behind row : List Lexeme} {head opening closing : Lexeme}
    {tree : Node} (place : ∀ last ∈ before.getLast?, last.kind.inArguments = false)
    (isName : head.kind = .identifier) (nonempty : row ≠ [])
    (atoms : ∀ lexeme ∈ row, lexeme.kind.isAtom = true)
    (follow : ∀ next ∈ behind.head?, next.kind.inArguments = false)
    (delimiters : ∀ form, Fits (nearest none before) form →
      Delimiters form opening.kind closing.kind) :
    Program (before ++ head :: (row ++ behind)) tree ↔
      Program (before ++ head :: (delimited opening closing row ++ behind)) tree := by
  obtain ⟨openingInside, closingInside, noAtom⟩ :=
    (delimiters .instantiation fits_instantiation).inArguments
  constructor
  · intro derivation
    have inside : ∀ lexeme ∈ row, lexeme.kind.inArguments = true :=
      fun lexeme isMember => TokenKind.inArguments_of_isAtom (atoms lexeme isMember)
    refine derivation.exchange (.here head place isName nonempty inside follow ?_)
    intro form nodes fits arguments
    exact .delimited nonempty (delimiters form fits) ((Arguments.row_iff nonempty atoms).mp arguments)
  · intro derivation
    have inside : ∀ lexeme ∈ delimited opening closing row, lexeme.kind.inArguments = true := by
      intro lexeme isMember
      rcases List.mem_cons.mp isMember with rfl | isLater
      · exact openingInside
      · rcases List.mem_append.mp isLater with isArgument | isLast
        · exact inArguments_of_mem_intersperse atoms isArgument
        · rwa [List.mem_singleton.mp isLast]
    refine derivation.exchange (.here head place isName (List.cons_ne_nil _ _) inside follow ?_)
    intro form nodes _ arguments
    exact (Arguments.row_iff nonempty atoms).mpr (arguments.of_delimited nonempty noAtom)

end SprigCompiler.Grammar
