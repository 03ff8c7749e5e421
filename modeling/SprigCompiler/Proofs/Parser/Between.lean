import SprigCompiler.Parser.Program
import SprigCompiler.Proofs.Grammar.Lexemes

/-!
Parsers as what they have taken and what is ahead of them.

A parser between two lists of tokens has taken the first, which is listed last token first, and
still has the second ahead.  Every parser with a cursor within its tokens is one, and each primitive
step moves at most one token across.
-/

namespace SprigCompiler

/-- The parser that has taken the tokens of `past`, last first, and has those of `ahead` before
it. -/
def Parser.between (source : Source) (entryPoint : Option Location) (past ahead : List Token) :
    Parser :=
  ⟨source, ⟨(past.reverse ++ ahead).toArray, past.length⟩, entryPoint⟩

theorem Parser.ofTokens_eq_between (source : Source) (tokens : List Token) :
    Parser.ofTokens source tokens = Parser.between source none [] tokens := rfl

namespace Parse

variable {First Second : Type} {source : Source} {entry : Option Location}
  {past ahead : List Token} {token : Token}

theorem bind_pure_eq (step : Parse First) : (step >>= pure) = step := by
  funext parser
  change Parse.bind step Parse.pure parser = step parser
  unfold Parse.bind
  cases step parser with
  | mk outcome behind => cases outcome <;> rfl

theorem bind_assoc_eq {Third : Type} (step : Parse First) (rest : First → Parse Second)
    (last : Second → Parse Third) :
    step >>= rest >>= last = step >>= fun result => rest result >>= last := by
  funext parser
  change Parse.bind (Parse.bind step rest) last parser =
    Parse.bind step (fun result => Parse.bind (rest result) last) parser
  unfold Parse.bind
  cases step parser with
  | mk outcome behind => cases outcome <;> rfl

theorem bind_congr_eq (step : Parse First) {rest other : First → Parse Second}
    (same : ∀ result, rest result = other result) : step >>= rest = step >>= other := by
  rw [funext same]

theorem bind_of_eq {step other : Parse First} {parser otherParser : Parser}
    (same : step parser = other otherParser) (rest : First → Parse Second) :
    (step >>= rest) parser = (other >>= rest) otherParser := by
  change Parse.bind step rest parser = Parse.bind other rest otherParser
  unfold Parse.bind
  rw [same]

theorem bind_of_ok {step : Parse First} {rest : First → Parse Second} {parser behind : Parser}
    {result : First} (ran : step parser = (.ok result, behind)) :
    (step >>= rest) parser = rest result behind := by
  change Parse.bind step rest parser = _
  unfold Parse.bind
  rw [ran]

theorem bind_of_error {step : Parse First} {rest : First → Parse Second} {parser behind : Parser}
    {error : ParseError} (failed : step parser = (.error error, behind)) :
    (step >>= rest) parser = (.error error, behind) := by
  change Parse.bind step rest parser = _
  unfold Parse.bind
  rw [failed]

theorem bind_eq_ok {step : Parse First} {rest : First → Parse Second} {parser behind : Parser}
    {result : Second} (ran : (step >>= rest) parser = (.ok result, behind)) :
    ∃ middle between, step parser = (.ok middle, between) ∧
      rest middle between = (.ok result, behind) := by
  change Parse.bind step rest parser = _ at ran
  unfold Parse.bind at ran
  cases first : step parser with
  | mk outcome between =>
      rw [first] at ran
      cases outcome with
      | ok middle => exact ⟨middle, between, rfl, ran⟩
      | error error => cases ran

theorem mapError_eq_ok {step : Parse First} {change : ParseError → ParseError}
    {parser behind : Parser} {result : First} :
    step.mapError change parser = (.ok result, behind) ↔ step parser = (.ok result, behind) := by
  unfold mapError
  cases step parser with
  | mk outcome between =>
      cases outcome with
      | ok middle => exact Iff.rfl
      | error error =>
          constructor <;> intro impossible <;> cases impossible

theorem build_of_sound {node : Node} (sound : node.firstFault? = none) (parser : Parser) :
    build node parser = (.ok node, parser) := by
  unfold build Node.checked
  rw [sound]
  rfl

theorem build_of_fault {node : Node} {fault : ValidationError}
    (faulty : node.firstFault? = some fault) (parser : Parser) :
    build node parser = (.error (.invalidNode fault), parser) := by
  unfold build Node.checked
  rw [faulty]
  rfl

theorem build_eq_ok {node found : Node} {parser behind : Parser}
    (ran : build node parser = (.ok found, behind)) :
    node.firstFault? = none ∧ found = node ∧ behind = parser := by
  cases fault : node.firstFault? with
  | none =>
      rw [build_of_sound fault] at ran
      cases ran
      exact ⟨rfl, rfl, rfl⟩
  | some error =>
      rw [build_of_fault fault] at ran
      cases ran

theorem peek_between_cons :
    (Parser.between source entry past (token :: ahead)).cursor.peek = some token := by
  simp [Parser.between, Cursor.peek]

theorem peek_between_nil : (Parser.between source entry past []).cursor.peek = none := by
  simp [Parser.between, Cursor.peek]

theorem advance_cons :
    advance (.between source entry past (token :: ahead)) =
      (.ok (some token), .between source entry (token :: past) ahead) := by
  unfold advance Cursor.advance
  rw [peek_between_cons]
  simp [Parser.between]

theorem advance_nil :
    advance (.between source entry past []) = (.ok none, .between source entry past []) := by
  unfold advance Cursor.advance
  rw [peek_between_nil]

theorem next_cons :
    next (.between source entry past (token :: ahead)) =
      (.ok token, .between source entry (token :: past) ahead) :=
  bind_of_ok advance_cons

theorem next_nil :
    next (.between source entry past []) =
      (.error (.unexpectedEnd source.endPosition), .between source entry past []) :=
  bind_of_ok advance_nil

theorem retreat_cons :
    retreat (.between source entry (token :: past) ahead) =
      (.ok (), .between source entry past (token :: ahead)) := by
  simp [retreat, Cursor.retreat, Parser.between]

theorem takeIf_nil {condition : Token → Bool} :
    takeIf condition (.between source entry past []) =
      (.ok none, .between source entry past []) :=
  bind_of_ok advance_nil

theorem takeIf_of_true {condition : Token → Bool} (holds : condition token = true) :
    takeIf condition (.between source entry past (token :: ahead)) =
      (.ok (some token), .between source entry (token :: past) ahead) := by
  exact (bind_of_ok advance_cons).trans (congrFun (if_pos holds) _)

theorem takeIf_of_false {condition : Token → Bool} (fails : condition token = false) :
    takeIf condition (.between source entry past (token :: ahead)) =
      (.ok none, .between source entry past (token :: ahead)) := by
  have refused : ¬condition token = true := by rw [fails]; exact Bool.false_ne_true
  refine (bind_of_ok advance_cons).trans ((congrFun (if_neg refused) _).trans ?_)
  exact bind_of_ok retreat_cons

theorem takeIf_of_head {condition : Token → Bool}
    (fails : ∀ first ∈ ahead.head?, condition first = false) :
    takeIf condition (.between source entry past ahead) =
      (.ok none, .between source entry past ahead) := by
  cases ahead with
  | nil => exact takeIf_nil
  | cons first rest => exact takeIf_of_false (fails first rfl)

theorem next_eq_ok {behind : Parser}
    (ran : next (.between source entry past ahead) = (.ok token, behind)) :
    ∃ rest, ahead = token :: rest ∧ behind = .between source entry (token :: past) rest := by
  cases ahead with
  | nil => rw [next_nil] at ran; cases ran
  | cons first rest =>
      rw [next_cons] at ran
      cases ran
      exact ⟨rest, rfl, rfl⟩

theorem takeIf_eq_none {condition : Token → Bool} {behind : Parser}
    (ran : takeIf condition (.between source entry past ahead) = (.ok none, behind)) :
    behind = .between source entry past ahead ∧
      ∀ first ∈ ahead.head?, condition first = false := by
  cases ahead with
  | nil =>
      rw [takeIf_nil] at ran
      cases ran
      exact ⟨rfl, nofun⟩
  | cons first rest =>
      cases holds : condition first with
      | true => rw [takeIf_of_true holds] at ran; cases ran
      | false =>
          rw [takeIf_of_false holds] at ran
          cases ran
          refine ⟨rfl, ?_⟩
          intro other isFirst
          cases isFirst
          exact holds

theorem takeIf_eq_some {condition : Token → Bool} {behind : Parser}
    (ran : takeIf condition (.between source entry past ahead) = (.ok (some token), behind)) :
    condition token = true ∧
      ∃ rest, ahead = token :: rest ∧ behind = .between source entry (token :: past) rest := by
  cases ahead with
  | nil => rw [takeIf_nil] at ran; cases ran
  | cons first rest =>
      cases holds : condition first with
      | false => rw [takeIf_of_false holds] at ran; cases ran
      | true =>
          rw [takeIf_of_true holds] at ran
          cases ran
          exact ⟨holds, rest, rfl, rfl⟩

theorem peekKind_between :
    peekKind (.between source entry past ahead) =
      (.ok (ahead.head?.map Token.kind), .between source entry past ahead) := by
  cases ahead with
  | nil => rw [peekKind, peek_between_nil]; rfl
  | cons token rest => rw [peekKind, peek_between_cons]; rfl

theorem ahead_between :
    Parse.ahead (.between source entry past ahead) =
      (.ok ahead.length, .between source entry past ahead) := by
  simp [Parse.ahead, Cursor.ahead, Parser.between]

/-- The kind of the nearest keyword or brace among tokens that are listed last first. -/
def governing (past : List Token) : Option TokenKind :=
  (past.find? (·.kind.governs)).map Token.kind

def innerForm : Option TokenKind → ApplicationForm
  | some (.keyword .typeWord) => .instantiation
  | _ => .call

/-- What an application means whose name stands behind some tokens, which are listed last first. -/
def formAfter (past : List Token) : ApplicationForm :=
  match past.head?.map Token.kind with
  | some (.keyword .typeWord) => .typeParameters
  | some (.keyword .funWord) => .functionParameters
  | some (.keyword .funcWord) => .functionParameters
  | _ => innerForm (governing past)

private theorem governing_cons_of_true (governs : token.kind.governs = true) :
    governing (token :: past) = some token.kind := by
  unfold governing
  rw [List.find?_cons, governs]
  rfl

theorem governing_append {taken : List Token}
    (plain : ∀ lexeme ∈ taken.map Token.lexeme, lexeme.kind.governs = false) (past : List Token) :
    governing (taken.reverse ++ past) = governing past := by
  have none : taken.reverse.find? (·.kind.governs) = none := by
    rw [List.find?_eq_none]
    intro token isMember governs
    have isTaken : token.lexeme ∈ taken.map Token.lexeme :=
      List.mem_map_of_mem (List.mem_reverse.mp isMember)
    have refused := plain token.lexeme isTaken
    rw [show token.lexeme.kind = token.kind from rfl, governs] at refused
    cases refused
  unfold governing
  rw [List.find?_append, none, Option.none_or]

theorem governing_taken {taken : List Token}
    (plain : ∀ lexeme ∈ token.lexeme :: taken.map Token.lexeme, lexeme.kind.governs = false)
    (past : List Token) : governing (taken.reverse ++ token :: past) = governing past := by
  have whole : taken.reverse ++ token :: past = (token :: taken).reverse ++ past := by simp
  rw [whole]
  exact @governing_append (token :: taken) plain past

theorem governing_operator {sign : Operator} (isOperator : token.kind = .operator sign) :
    governing (token :: past) = governing past := by
  unfold governing
  rw [List.find?_cons, isOperator]
  rfl

theorem formAfter_operator {sign : Operator} (isOperator : token.kind = .operator sign) :
    formAfter (token :: past) = innerForm (governing past) := by
  unfold formAfter
  rw [List.head?_cons, Option.map_some, isOperator, governing_operator isOperator]

def headForm : Keyword → ApplicationForm
  | .typeWord => .typeParameters
  | .funWord | .funcWord => .functionParameters
  | _ => .call

theorem governing_keyword {word : Keyword} (isKeyword : token.kind = .keyword word) :
    governing (token :: past) = some (.keyword word) := by
  have governs : token.kind.governs = true := by
    rw [isKeyword]
    rfl
  rw [governing_cons_of_true governs, isKeyword]

theorem formAfter_keyword {word : Keyword} (isKeyword : token.kind = .keyword word) :
    formAfter (token :: past) = headForm word := by
  unfold formAfter
  rw [governing_keyword isKeyword, List.head?_cons, Option.map_some, isKeyword]
  cases word <;> rfl

private theorem lastBefore_append (condition : Token → Bool) (past : List Token)
    (more : List Token) :
    Cursor.lastBefore (past.reverse ++ more).toArray condition past.length =
      past.find? condition := by
  induction past generalizing more with
  | nil => rfl
  | cons token past inductionHypothesis =>
      have there : (token :: past).reverse ++ more = past.reverse ++ (token :: more) := by simp
      have found : (past.reverse ++ (token :: more)).toArray[past.length]? = some token := by simp
      rw [there, List.length_cons, Cursor.lastBefore, found, List.find?_cons]
      cases holds : condition token with
      | true => simp only [holds, if_true]
      | false =>
          simp only [holds, Bool.false_eq_true, if_false]
          exact inductionHypothesis (token :: more)

theorem formBehind_between :
    formBehind (Parser.between source entry (token :: past) ahead).cursor = formAfter past := by
  have whole : (token :: past).reverse ++ ahead = past.reverse ++ (token :: ahead) := by simp
  have enclosing : Cursor.lookBehind
      (Parser.between source entry (token :: past) ahead).cursor past.length (·.kind.governs) =
        past.find? (·.kind.governs) := by
    unfold Cursor.lookBehind Parser.between
    have within : min past.length ((token :: past).reverse ++ ahead).toArray.size =
        past.length := by simp
    rw [within, whole, lastBefore_append]
  cases past with
  | nil =>
      unfold formBehind formAfter governing
      simp only [Cursor.currentIndex, Parser.between, List.length_cons, List.length_nil]
      rw [← enclosing]
      rfl
  | cons before earlier =>
      have previous : (Parser.between source entry (token :: before :: earlier) ahead).cursor.get
          earlier.length = some before := by
        simp [Parser.between, Cursor.get]
      unfold formBehind formAfter governing
      rw [← enclosing]
      simp only [Cursor.currentIndex, Parser.between, List.length_cons] at previous ⊢
      simp only [previous]
      rfl

end Parse

end SprigCompiler
