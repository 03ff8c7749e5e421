import SprigCompiler.Proofs.Grammar.Trees
import SprigCompiler.Proofs.Parser.Between

/-!
Operands against the grammar.

What a step for literals, arguments, names and unions takes derives the node that it gives, and
where the tokens ahead begin with such a derivation the step takes exactly that, provided that what
follows cannot go on.
-/

namespace SprigCompiler.Parse

open Grammar (Literal Atom Listed Delimiters Arguments Named Term Members)

variable {source : Source} {entry : Option Location} {past ahead rest : List Token}
  {token head : Token} {parser behind : Parser}

theorem lexeme_eq {kind : TokenKind} (same : token.kind = kind) :
    token.lexeme = ⟨kind, token.text⟩ := by
  rw [← same]
  rfl

/-- Whether a parser was left behind by a step that took some of the tokens ahead, of which
`derives` holds. -/
def Took (source : Source) (entry : Option Location) (past ahead : List Token) (behind : Parser)
    (derives : List Lexeme → Prop) : Prop :=
  ∃ taken rest, ahead = taken ++ rest ∧
    behind = .between source entry (taken.reverse ++ past) rest ∧
    derives (taken.map Token.lexeme)

theorem Took.nothing {derives : List Lexeme → Prop} (derivation : derives []) :
    Took source entry past ahead (.between source entry past ahead) derives :=
  ⟨[], ahead, rfl, rfl, derivation⟩

theorem Took.cons {first second : List Lexeme → Prop}
    (took : Took source entry (token :: past) ahead behind first)
    (step : ∀ lexemes, first lexemes → second (token.lexeme :: lexemes)) :
    Took source entry past (token :: ahead) behind second := by
  obtain ⟨taken, rest, rfl, rfl, derivation⟩ := took
  exact ⟨token :: taken, rest, rfl, by simp, step _ derivation⟩

private theorem Took.append {first second : List Lexeme → Prop} (taken : List Token)
    (took : Took source entry (taken.reverse ++ past) ahead behind first)
    (step : ∀ lexemes, first lexemes → second (taken.map Token.lexeme ++ lexemes)) :
    Took source entry past (taken ++ ahead) behind second := by
  obtain ⟨more, rest, rfl, rfl, derivation⟩ := took
  refine ⟨taken ++ more, rest, by simp, by simp, ?_⟩
  rw [List.map_append]
  exact step _ derivation

/-- Whether a token goes on with a name directly before it, as an argument or as the start of a
list of arguments. -/
def extendsName (token : Token) : Bool :=
  token.kind.isAtom || token.kind == .openParen || token.kind == .openAngle

def Stops (ahead : List Token) : Prop := ∀ token ∈ ahead.head?, extendsName token = false

theorem stops_cons (stops : extendsName token = false) : Stops (token :: ahead) := by
  intro other isFirst
  cases isFirst
  exact stops

theorem literal_sound {node : Node} (ran : literal token parser = (.ok node, behind)) :
    Literal token.lexeme node ∧ behind = parser := by
  cases token with
  | mk kind text location =>
      cases kind
      case string =>
        cases ran
        exact ⟨.string text location, rfl⟩
      case boolean =>
        cases ran
        exact ⟨.boolean text location, rfl⟩
      case number =>
        unfold literal at ran
        cases numeral : Decimal.read? text.toList with
        | none =>
            simp only [numeral] at ran
            cases ran
        | some value =>
            simp only [numeral] at ran
            cases ran
            exact ⟨.number text value location numeral, rfl⟩
      all_goals cases ran

theorem literal_complete {tree : Node} (derivation : Literal token.lexeme tree)
    (parser : Parser) : ∃ node, literal token parser = (.ok node, parser) ∧ node.Alike tree := by
  cases token with
  | mk kind text location =>
      cases derivation with
      | string _ place => exact ⟨_, rfl, rfl⟩
      | boolean _ place => exact ⟨_, rfl, rfl⟩
      | number _ value place numeral =>
          refine ⟨.number value location, ?_, rfl⟩
          unfold literal
          simp only [numeral]
          rfl

theorem atom_eq_literal (other : token.kind ≠ .identifier) : atom token = literal token := by
  unfold atom
  split
  · contradiction
  · rfl

theorem atom_sound {node : Node} (ran : atom token parser = (.ok node, behind)) :
    Atom token.lexeme node ∧ behind = parser := by
  by_cases isName : token.kind = .identifier
  · cases token with
    | mk kind text location =>
        cases isName
        cases ran
        exact ⟨.name text location, rfl⟩
  · rw [atom_eq_literal isName] at ran
    obtain ⟨derivation, same⟩ := literal_sound ran
    exact ⟨.literal derivation, same⟩

theorem atom_complete {tree : Node} (derivation : Atom token.lexeme tree) (parser : Parser) :
    ∃ node, atom token parser = (.ok node, parser) ∧ node.Alike tree := by
  by_cases isName : token.kind = .identifier
  · cases token with
    | mk kind text location =>
        cases isName
        cases derivation with
        | name _ place => exact ⟨_, rfl, rfl⟩
        | literal derivation => cases derivation
  · rw [atom_eq_literal isName]
    cases token with
    | mk kind text location =>
        cases derivation with
        | name _ place => contradiction
        | literal derivation => exact literal_complete derivation parser

theorem isAtom_of_atom {tree : Node} (derivation : Atom token.lexeme tree) :
    token.kind.isAtom = true := by
  cases token with
  | mk kind text location =>
      cases derivation with
      | name => rfl
      | literal derivation => cases derivation <;> rfl

private theorem argumentRow_sound {count : Nat} {nodes : List Node}
    (ran : argumentRow count (.between source entry past ahead) = (.ok nodes, behind)) :
    Took source entry past ahead behind (List.Forall₂ Atom · nodes) := by
  induction count generalizing past ahead nodes with
  | zero =>
      cases ran
      exact .nothing .nil
  | succ count inductionHypothesis =>
      unfold argumentRow at ran
      obtain ⟨found, middle, taken, ran⟩ := bind_eq_ok ran
      cases found with
      | none =>
          obtain ⟨rfl, _⟩ := takeIf_eq_none taken
          cases ran
          exact .nothing .nil
      | some token =>
          obtain ⟨_, ahead, rfl, rfl⟩ := takeIf_eq_some taken
          obtain ⟨node, middle, read, ran⟩ := bind_eq_ok ran
          obtain ⟨derivation, rfl⟩ := atom_sound read
          obtain ⟨nodes, middle, row, ran⟩ := bind_eq_ok ran
          cases ran
          exact (inductionHypothesis row).cons fun _ derivations =>
            .cons derivation derivations

private theorem Stops.noAtom (stops : Stops rest) :
    ∀ first ∈ rest.head?, first.kind.isAtom = false := by
  intro first isFirst
  have stop := stops first isFirst
  unfold extendsName at stop
  simp only [Bool.or_eq_false_iff] at stop
  exact stop.1.1

theorem argumentRow_stop {count : Nat} (stops : Stops rest) :
    argumentRow count (.between source entry past rest) =
      (.ok [], .between source entry past rest) := by
  cases count with
  | zero => rfl
  | succ count => exact bind_of_ok (takeIf_of_head stops.noAtom)

private theorem argumentRow_complete (source : Source) (entry : Option Location)
    (past rest : List Token) {count : Nat} {taken : List Token} {trees : List Node}
    (derivations : List.Forall₂ Atom (taken.map Token.lexeme) trees) (stops : Stops rest)
    (enough : taken.length ≤ count) :
    ∃ nodes, argumentRow count (.between source entry past (taken ++ rest)) =
        (.ok nodes, .between source entry (taken.reverse ++ past) rest) ∧
      Node.AlikeAll nodes trees := by
  induction taken generalizing past count trees with
  | nil =>
      cases derivations
      exact ⟨[], argumentRow_stop stops, .nil⟩
  | cons token taken inductionHypothesis =>
      rw [List.map_cons] at derivations
      cases derivations with
      | @cons _ tree _ trees derivation derivations =>
          cases count with
          | zero => cases enough
          | succ count =>
              obtain ⟨node, read, alike⟩ :=
                atom_complete derivation (.between source entry (token :: past) (taken ++ rest))
              obtain ⟨nodes, row, alikeAll⟩ :=
                inductionHypothesis (token :: past) derivations (Nat.le_of_succ_le_succ enough)
              refine ⟨node :: nodes, ?_, .cons alike alikeAll⟩
              have isAtom := isAtom_of_atom derivation
              apply (bind_of_ok (takeIf_of_true isAtom)).trans
              apply (bind_of_ok read).trans
              apply (bind_of_ok row).trans
              rw [List.reverse_cons, List.append_assoc]
              rfl

private theorem argumentsUpTo_sound {closing : TokenKind} {count : Nat} {nodes : List Node}
    {last : Location}
    (ran : argumentsUpTo closing count (.between source entry past ahead) =
      (.ok (nodes, last), behind)) :
    Took source entry past ahead behind fun lexemes =>
      ∃ listed stop, lexemes = listed ++ [⟨closing, stop⟩] ∧ Listed listed nodes := by
  induction count generalizing past ahead nodes with
  | zero => cases ran
  | succ count inductionHypothesis =>
      unfold argumentsUpTo at ran
      obtain ⟨token, middle, taken, ran⟩ := bind_eq_ok ran
      obtain ⟨ahead, rfl, rfl⟩ := next_eq_ok taken
      cases isAtom : token.kind.isAtom with
      | false =>
          simp only [isAtom, Bool.false_eq_true, if_false] at ran
          cases ran
      | true =>
          simp only [isAtom, if_true] at ran
          obtain ⟨node, middle, read, ran⟩ := bind_eq_ok ran
          obtain ⟨derivation, rfl⟩ := atom_sound read
          obtain ⟨separator, middle, taken, ran⟩ := bind_eq_ok ran
          obtain ⟨ahead, rfl, rfl⟩ := next_eq_ok taken
          by_cases closes : separator.kind = closing
          · simp only [closes, if_true] at ran
            cases ran
            refine ⟨[token, separator], ahead, rfl, rfl, [token.lexeme], separator.text, ?_,
              .last derivation⟩
            rw [← lexeme_eq closes]
            rfl
          · by_cases more : separator.kind = .comma
            · simp only [if_neg closes, if_pos more] at ran
              obtain ⟨⟨others, place⟩, middle, found, ran⟩ := bind_eq_ok ran
              cases ran
              apply (inductionHypothesis found).append [token, separator]
              rintro _ ⟨listed, stop, rfl, derivations⟩
              refine ⟨token.lexeme :: separator.lexeme :: listed, stop, rfl, ?_⟩
              rw [lexeme_eq more]
              exact .more _ derivation derivations
            · simp only [if_neg closes, if_neg more] at ran
              cases ran

theorem kind_of_lexeme_eq {lexeme : Lexeme} (same : token.lexeme = lexeme) :
    token.kind = lexeme.kind := by
  rw [← same]
  rfl

private theorem argumentsUpTo_complete (source : Source) (entry : Option Location)
    (past rest : List Token) {closing : TokenKind} {count : Nat} {taken : List Token}
    {closer : Token} {lexemes : List Lexeme} {trees : List Node} (closes : closer.kind = closing)
    (derivation : Listed lexemes trees) (same : taken.map Token.lexeme = lexemes)
    (noComma : closing ≠ .comma) (enough : taken.length < count) :
    ∃ nodes, argumentsUpTo closing count (.between source entry past (taken ++ closer :: rest)) =
        (.ok (nodes, closer.location),
          .between source entry (closer :: (taken.reverse ++ past)) rest) ∧
      Node.AlikeAll nodes trees := by
  induction derivation generalizing taken past count with
  | @last lexeme tree atom =>
      obtain ⟨token, rfl, rfl⟩ := List.map_eq_singleton_iff.mp same
      cases count with
      | zero => cases enough
      | succ count =>
          obtain ⟨node, read, alike⟩ :=
            atom_complete atom (.between source entry (token :: past) (closer :: rest))
          refine ⟨[node], ?_, .cons alike .nil⟩
          apply (bind_of_ok next_cons).trans
          apply (congrFun (if_pos (isAtom_of_atom atom)) _).trans
          apply (bind_of_ok read).trans
          apply (bind_of_ok next_cons).trans
          exact congrFun (if_pos closes) _
  | @more lexeme tree lexemes trees comma atom _ inductionHypothesis =>
      obtain ⟨token, follow, rfl, rfl, commaFirst⟩ := List.map_eq_cons_iff.mp same
      obtain ⟨separator, taken, rfl, isComma, same⟩ := List.map_eq_cons_iff.mp commaFirst
      cases count with
      | zero => cases enough
      | succ count =>
          have fewer : taken.length < count := by
            simp only [List.length_cons] at enough
            omega
          have more : separator.kind = .comma := kind_of_lexeme_eq isComma
          have open_ : separator.kind ≠ closing := by
            rw [more]
            exact noComma.symm
          obtain ⟨node, read, alike⟩ := atom_complete atom
            (.between source entry (token :: past) (separator :: (taken ++ closer :: rest)))
          obtain ⟨nodes, ran, alikeAll⟩ :=
            inductionHypothesis (separator :: token :: past) same fewer
          refine ⟨node :: nodes, ?_, .cons alike alikeAll⟩
          apply (bind_of_ok next_cons).trans
          apply (congrFun (if_pos (isAtom_of_atom atom)) _).trans
          apply (bind_of_ok read).trans
          apply (bind_of_ok next_cons).trans
          refine (congrFun (if_neg open_) _).trans ((congrFun (if_pos more) _).trans ?_)
          apply (bind_of_ok ran).trans
          simp only [List.reverse_cons, List.append_assoc, List.cons_append]
          rfl

theorem closingFor?_eq_some_iff {form : ApplicationForm} {opening closing : TokenKind} :
    closingFor? form (some opening) = some closing ↔ Delimiters form opening closing := by
  constructor
  · intro found
    cases opening <;> cases form <;> cases found <;> constructor
  · intro delimiters
    cases delimiters <;> rfl

theorem plain_of_delimiters {form : ApplicationForm} {opening closing : TokenKind}
    (delimiters : Delimiters form opening closing) :
    closing ≠ .comma ∧ closing.isAtom = false := by
  cases delimiters <;> exact ⟨nofun, rfl⟩

private theorem delimitedArguments_sound {form : ApplicationForm} {closing : TokenKind}
    {nodes : List Node} {last : Location} (delimiters : Delimiters form token.kind closing)
    (ran : delimitedArguments closing (.between source entry past (token :: ahead)) =
      (.ok (nodes, last), behind)) :
    Took source entry past (token :: ahead) behind (Arguments form · nodes) := by
  unfold delimitedArguments at ran
  rw [bind_of_ok next_cons] at ran
  obtain ⟨found, middle, taken, ran⟩ := bind_eq_ok ran
  cases found with
  | some closer =>
      obtain ⟨closes, ahead, rfl, rfl⟩ := takeIf_eq_some taken
      cases ran
      refine ⟨[token, closer], ahead, rfl, rfl, ?_⟩
      have same : closer.lexeme = ⟨closing, closer.text⟩ := lexeme_eq (eq_of_beq closes)
      simp only [List.map_cons, List.map_nil, same]
      exact .empty token.text closer.text delimiters
  | none =>
      obtain ⟨rfl, _⟩ := takeIf_eq_none taken
      have ran := (bind_of_ok ahead_between).symm.trans ran
      apply (argumentsUpTo_sound ran).cons
      rintro _ ⟨listed, stop, rfl, derivation⟩
      exact .listed token.text stop delimiters derivation

private theorem isAtom_head_of_listed {lexemes : List Lexeme} {trees : List Node}
    {taken : List Token} (derivation : Listed lexemes trees)
    (same : taken.map Token.lexeme = lexemes) :
    ∃ first others, taken = first :: others ∧ first.kind.isAtom = true := by
  cases derivation with
  | last atom =>
      obtain ⟨token, rfl, rfl⟩ := List.map_eq_singleton_iff.mp same
      exact ⟨token, [], rfl, isAtom_of_atom atom⟩
  | more comma atom _ =>
      obtain ⟨token, follow, rfl, rfl, _⟩ := List.map_eq_cons_iff.mp same
      exact ⟨token, follow, rfl, isAtom_of_atom atom⟩

private theorem delimitedArguments_complete (source : Source) (entry : Option Location)
    (past rest : List Token) (opener : Token) {closer : Token} {closing : TokenKind}
    {lexemes : List Lexeme} {taken : List Token} {trees : List Node}
    (closes : closer.kind = closing) (derivation : Listed lexemes trees)
    (same : taken.map Token.lexeme = lexemes) (noComma : closing ≠ .comma)
    (noAtom : closing.isAtom = false) :
    ∃ nodes, delimitedArguments closing
          (.between source entry past (opener :: (taken ++ closer :: rest))) =
        (.ok (nodes, closer.location),
          .between source entry (closer :: (taken.reverse ++ opener :: past)) rest) ∧
      Node.AlikeAll nodes trees := by
  have enough : taken.length < (taken ++ closer :: rest).length := by simp
  obtain ⟨nodes, ran, alike⟩ := argumentsUpTo_complete source entry (opener :: past) rest
    closes derivation same noComma enough
  have notYet : ∀ first ∈ (taken ++ closer :: rest).head?, (first.kind == closing) = false := by
    obtain ⟨first, others, rfl, isAtom⟩ := isAtom_head_of_listed derivation same
    intro other isFirst
    cases isFirst
    refine beq_eq_false_iff_ne.mpr fun closed => ?_
    rw [closed, noAtom] at isAtom
    cases isAtom
  refine ⟨nodes, ?_, alike⟩
  apply (bind_of_ok next_cons).trans
  apply (bind_of_ok (takeIf_of_head notYet)).trans
  exact (bind_of_ok ahead_between).trans ran

private theorem delimitedArguments_none {opener closer : Token} {closing : TokenKind}
    (closes : closer.kind = closing) :
    delimitedArguments closing (.between source entry past (opener :: closer :: rest)) =
      (.ok ([], closer.location), .between source entry (closer :: opener :: past) rest) := by
  apply (bind_of_ok next_cons).trans
  exact bind_of_ok (takeIf_of_true (by rw [closes]; exact beq_self_eq_true closing))

theorem named_delimited {closing : TokenKind}
    (opens : closingFor? (formAfter past) (ahead.head?.map Token.kind) = some closing) :
    named head (.between source entry (head :: past) ahead) =
      (do
        let (arguments, last) ← delimitedArguments closing
        build (.application (formAfter past) (.identifier head.text head.location) arguments
          (head.location.through last)) : Parse Node)
        (.between source entry (head :: past) ahead) := by
  unfold named
  apply (bind_of_ok rfl).trans
  simp only [formBehind_between]
  apply (bind_of_ok peekKind_between).trans
  simp only [opens]

private theorem named_row
    (closed : closingFor? (formAfter past) (ahead.head?.map Token.kind) = none) :
    named head (.between source entry (head :: past) ahead) =
      (do
        let arguments ← argumentRow ahead.length
        match arguments.getLast? with
        | none => return .identifier head.text head.location
        | some last =>
            build (.application (formAfter past) (.identifier head.text head.location) arguments
              (head.location.through last.location)) : Parse Node)
        (.between source entry (head :: past) ahead) := by
  unfold named
  apply (bind_of_ok rfl).trans
  simp only [formBehind_between]
  apply (bind_of_ok peekKind_between).trans
  simp only [closed]
  exact bind_of_ok ahead_between

private theorem named_sound {node : Node} (isName : head.kind = .identifier)
    (ran : named head (.between source entry (head :: past) ahead) = (.ok node, behind)) :
    Took source entry (head :: past) ahead behind fun lexemes =>
      Named (formAfter past) (head.lexeme :: lexemes) node := by
  rw [lexeme_eq isName]
  cases opens : closingFor? (formAfter past) (ahead.head?.map Token.kind) with
  | some closing =>
      rw [named_delimited opens] at ran
      obtain ⟨⟨arguments, last⟩, middle, read, ran⟩ := bind_eq_ok ran
      obtain ⟨_, rfl, rfl⟩ := build_eq_ok ran
      cases ahead with
      | nil => cases opens
      | cons token ahead =>
          obtain ⟨taken, rest, same, rfl, derivation⟩ :=
            delimitedArguments_sound (closingFor?_eq_some_iff.mp opens) read
          exact ⟨taken, rest, same, rfl, .application _ _ _ derivation⟩
  | none =>
      rw [named_row opens] at ran
      obtain ⟨arguments, middle, row, ran⟩ := bind_eq_ok ran
      obtain ⟨taken, rest, rfl, rfl, derivations⟩ := argumentRow_sound row
      refine ⟨taken, rest, rfl, ?_⟩
      generalize taken.map Token.lexeme = lexemes at derivations
      cases lastOf : arguments.getLast? with
      | none =>
          simp only [lastOf] at ran
          cases ran
          rw [List.getLast?_eq_none_iff] at lastOf
          subst lastOf
          cases derivations
          exact ⟨rfl, .name _ _⟩
      | some last =>
          simp only [lastOf] at ran
          obtain ⟨_, rfl, rfl⟩ := build_eq_ok ran
          cases derivations with
          | nil => cases lastOf
          | cons first others => exact ⟨rfl, .application _ _ _ (.row first others)⟩

theorem closingFor?_eq_none (form : ApplicationForm)
    (others : ∀ first ∈ ahead.head?, first.kind ≠ .openParen ∧ first.kind ≠ .openAngle) :
    closingFor? form (ahead.head?.map Token.kind) = none := by
  cases ahead with
  | nil => rfl
  | cons token ahead =>
      obtain ⟨noParen, noAngle⟩ := others token rfl
      cases found : closingFor? form ((token :: ahead).head?.map Token.kind) with
      | none => rfl
      | some closing =>
          rw [List.head?_cons, Option.map_some, closingFor?_eq_some_iff] at found
          generalize token.kind = kind at found noParen noAngle
          cases found <;> contradiction

private theorem Stops.noDelimiter (stops : Stops rest) :
    ∀ first ∈ rest.head?, first.kind ≠ .openParen ∧ first.kind ≠ .openAngle := by
  intro first isFirst
  have stop := stops first isFirst
  unfold extendsName at stop
  simp only [Bool.or_eq_false_iff, beq_eq_false_iff_ne] at stop
  exact ⟨stop.1.2, stop.2⟩

theorem build_application {form : ApplicationForm} {lexemes : List Lexeme}
    {nodes trees : List Node} (alike : Node.AlikeAll nodes trees)
    (derivation : Arguments form lexemes trees) (text : String) (place extent : Location)
    (parser : Parser) :
    build (.application form (.identifier text place) nodes extent) parser =
      (.ok (.application form (.identifier text place) nodes extent), parser) := by
  apply build_of_sound
  have sound := derivation.sound text place extent
  have likeness := Node.alike_application form extent extent
    (Node.Alike.refl (.identifier text place)) alike
  exact likeness.firstFault?_eq_none_iff.mpr sound

private theorem named_complete_row (source : Source) (entry : Option Location)
    (past rest : List Token) {taken : List Token} {trees : List Node} (nonempty : taken ≠ [])
    (derivations : List.Forall₂ Atom (taken.map Token.lexeme) trees) (stops : Stops rest) :
    ∃ nodes extent, named head (.between source entry (head :: past) (taken ++ rest)) =
        (.ok (.application (formAfter past) (.identifier head.text head.location) nodes extent),
          .between source entry (taken.reverse ++ head :: past) rest) ∧
      Node.AlikeAll nodes trees := by
  have enough : taken.length ≤ (taken ++ rest).length := by simp
  obtain ⟨nodes, row, alike⟩ :=
    argumentRow_complete source entry (head :: past) rest derivations stops enough
  cases taken with
  | nil => contradiction
  | cons first taken =>
      cases derivations with
      | @cons _ tree _ trees atom atoms =>
          have isAtom := isAtom_of_atom atom
          have closed : closingFor? (formAfter past)
              ((first :: taken ++ rest).head?.map Token.kind) = none := by
            apply closingFor?_eq_none
            intro other isFirst
            cases isFirst
            constructor <;> intro delimiter <;> rw [delimiter] at isAtom <;> cases isAtom
          cases alike with
          | @cons node _ nodes _ firstAlike alike =>
              have last := List.getLast?_cons (a := node) (l := nodes)
              refine ⟨node :: nodes, head.location.through (nodes.getLast?.getD node).location, ?_,
                .cons firstAlike alike⟩
              rw [named_row closed]
              apply (bind_of_ok row).trans
              simp only [last]
              exact build_application (.cons firstAlike alike) (.row atom atoms) _ _ _ _

private theorem named_complete_empty {rest : List Token} {opener closer : Token}
    {opening closing : TokenKind} (opens : opener.kind = opening) (closes : closer.kind = closing)
    (delimiters : Delimiters (formAfter past) opening closing) :
    ∃ extent, named head (.between source entry (head :: past) (opener :: closer :: rest)) =
      (.ok (.application (formAfter past) (.identifier head.text head.location) [] extent),
        .between source entry (closer :: opener :: head :: past) rest) := by
  have opensAt : closingFor? (formAfter past)
      ((opener :: closer :: rest).head?.map Token.kind) = some closing := by
    rw [List.head?_cons, Option.map_some, opens]
    exact closingFor?_eq_some_iff.mpr delimiters
  refine ⟨head.location.through closer.location, ?_⟩
  rw [named_delimited opensAt]
  apply (bind_of_ok (delimitedArguments_none closes)).trans
  exact build_application .nil (.empty opener.text closer.text delimiters) _ _ _ _

private theorem named_complete_listed (source : Source) (entry : Option Location)
    (past rest : List Token) {opener closer : Token} {inside : List Token}
    {opening closing : TokenKind} {lexemes : List Lexeme} {trees : List Node}
    (opens : opener.kind = opening) (closes : closer.kind = closing)
    (delimiters : Delimiters (formAfter past) opening closing) (listed : Listed lexemes trees)
    (same : inside.map Token.lexeme = lexemes) :
    ∃ nodes extent,
      named head (.between source entry (head :: past) (opener :: (inside ++ closer :: rest))) =
        (.ok (.application (formAfter past) (.identifier head.text head.location) nodes extent),
          .between source entry (closer :: (inside.reverse ++ opener :: head :: past)) rest) ∧
      Node.AlikeAll nodes trees := by
  have opensAt : closingFor? (formAfter past)
      ((opener :: (inside ++ closer :: rest)).head?.map Token.kind) = some closing := by
    rw [List.head?_cons, Option.map_some, opens]
    exact closingFor?_eq_some_iff.mpr delimiters
  obtain ⟨noComma, noAtom⟩ := plain_of_delimiters delimiters
  obtain ⟨nodes, ran, alike⟩ := delimitedArguments_complete source entry (head :: past)
    rest opener closes listed same noComma noAtom
  refine ⟨nodes, head.location.through closer.location, ?_, alike⟩
  rw [named_delimited opensAt]
  apply (bind_of_ok ran).trans
  exact build_application alike (.listed opener.text closer.text delimiters listed) _ _ _ _

private theorem named_complete (source : Source) (entry : Option Location) (past rest : List Token)
    {taken : List Token} {tree : Node} {lexemes : List Lexeme}
    (derivation : Named (formAfter past) lexemes tree)
    (same : (head :: taken).map Token.lexeme = lexemes) (stops : Stops rest) :
    ∃ node, named head (.between source entry (head :: past) (taken ++ rest)) =
        (.ok node, .between source entry (taken.reverse ++ head :: past) rest) ∧
      node.Alike tree := by
  cases derivation with
  | name text place =>
      obtain ⟨isName, rfl⟩ : head.lexeme = ⟨.identifier, text⟩ ∧ taken = [] := by
        simpa using same
      have headText : head.text = text := congrArg Lexeme.text isName
      subst headText
      have closed := closingFor?_eq_none (formAfter past) stops.noDelimiter
      refine ⟨.identifier head.text head.location, ?_, Node.alike_identifier _ _ _⟩
      apply (named_row closed).trans
      exact bind_of_ok (argumentRow_stop stops)
  | application text place extent arguments =>
      obtain ⟨isName, follow⟩ := List.cons.inj same
      have headText : head.text = text := congrArg Lexeme.text isName
      subst headText
      cases arguments with
      | row atom atoms =>
          have nonempty : taken ≠ [] := by
            intro isNil
            rw [isNil] at follow
            cases follow
          obtain ⟨nodes, extent, ran, alike⟩ := named_complete_row source entry past rest nonempty
            (follow ▸ List.Forall₂.cons atom atoms) stops
          exact ⟨_, ran, Node.alike_application _ _ _ (Node.alike_identifier _ _ _) alike⟩
      | empty start stop delimiters =>
          obtain ⟨opener, more, rfl, opens, follow⟩ := List.map_eq_cons_iff.mp follow
          obtain ⟨closer, rfl, closes⟩ := List.map_eq_singleton_iff.mp follow
          obtain ⟨extent, ran⟩ := @named_complete_empty source entry past head rest opener closer _ _
            (kind_of_lexeme_eq opens) (kind_of_lexeme_eq closes) delimiters
          exact ⟨_, ran, Node.alike_application _ _ _ (Node.alike_identifier _ _ _) .nil⟩
      | listed start stop delimiters listed =>
          obtain ⟨opener, more, rfl, opens, follow⟩ := List.map_eq_cons_iff.mp follow
          obtain ⟨inside, last, rfl, insideSame, lastSame⟩ := List.map_eq_append_iff.mp follow
          obtain ⟨closer, rfl, closes⟩ := List.map_eq_singleton_iff.mp lastSame
          obtain ⟨nodes, extent, ran, alike⟩ := named_complete_listed source entry past rest
            (kind_of_lexeme_eq opens) (kind_of_lexeme_eq closes) delimiters listed insideSame
          refine ⟨.application (formAfter past) (.identifier head.text head.location) nodes extent,
            ?_, Node.alike_application _ _ _ (Node.alike_identifier _ _ _) alike⟩
          simp only [List.cons_append, List.append_assoc, List.nil_append, List.reverse_cons,
            List.reverse_append, List.reverse_nil]
          exact ran

theorem operand_eq_named (isName : head.kind = .identifier) : operand head = named head := by
  unfold operand
  rw [isName]

/-- A head that is no name is read as a literal, or refused as one. -/
theorem operand_eq_literal (other : head.kind ≠ .identifier) : operand head = literal head := by
  cases head with
  | mk kind text location => cases kind <;> first | rfl | contradiction

theorem operand_sound {node : Node}
    (ran : operand head (.between source entry (head :: past) ahead) = (.ok node, behind)) :
    Took source entry (head :: past) ahead behind fun lexemes =>
      Term (formAfter past) (head.lexeme :: lexemes) node := by
  by_cases isName : head.kind = .identifier
  · rw [operand_eq_named isName] at ran
    obtain ⟨taken, rest, split, stood, derivation⟩ := named_sound isName ran
    exact ⟨taken, rest, split, stood, .named derivation⟩
  · rw [operand_eq_literal isName] at ran
    obtain ⟨derivation, rfl⟩ := literal_sound ran
    exact .nothing (.literal derivation)

theorem operand_complete (source : Source) (entry : Option Location) (past rest : List Token)
    {taken : List Token} {tree : Node} {lexemes : List Lexeme}
    (derivation : Term (formAfter past) lexemes tree)
    (same : (head :: taken).map Token.lexeme = lexemes) (stops : Stops rest) :
    ∃ node, operand head (.between source entry (head :: past) (taken ++ rest)) =
        (.ok node, .between source entry (taken.reverse ++ head :: past) rest) ∧
      node.Alike tree := by
  cases derivation with
  | named derivation =>
      have isName : head.kind = .identifier := by
        cases derivation <;> exact congrArg Lexeme.kind (List.cons.inj same).1
      rw [operand_eq_named isName]
      exact named_complete source entry past rest derivation same stops
  | literal derivation =>
      obtain ⟨rfl, rfl⟩ : head.lexeme = _ ∧ taken = [] := by simpa using same
      have noName : head.kind ≠ .identifier := by
        intro isName
        have kinds : head.lexeme.kind = .identifier := isName
        generalize head.lexeme = lexeme at derivation kinds
        cases derivation <;> cases kinds
      rw [operand_eq_literal noName]
      exact literal_complete derivation _

end SprigCompiler.Parse
