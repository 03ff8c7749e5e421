import SprigCompiler.Proofs.Parser.EntryPoint
import SprigCompiler.Proofs.Parser.Layout
import SprigCompiler.Proofs.Tree.Table

/-!
What a parser blames when it fails.

Every failure is about a token of the text, about a tree that stands over tokens of it, or about its
end.  Each way of putting steps together hands the blame on, and so does the recursion of the
parser.
-/

namespace SprigCompiler

structure Starts (token : Token) (node : Node) : Prop where
  position : node.location.position = token.location.position
  start : node.location.start = token.location.start

/-- Whether a node stands over tokens in a row among some others, and starts with the first of
them. -/
def Placed (tokens : List Token) (node : Node) : Prop :=
  ∃ first rest, first :: rest <:+: tokens ∧ Built (first :: rest) [node] ∧ Starts first node

/-- Whether an error is about one of some tokens, about a node that stands over tokens in a row
among them and is of no kind that its parent admits, or about the end of the text. -/
inductive Blames (source : Source) (tokens : List Token) : ParseError → Prop where
  | token {token : Token} (isMember : token ∈ tokens) : Blames source tokens (.unexpected token)
  | ending : Blames source tokens (.unexpectedEnd source.endPosition)
  | opening {token : Token} (isMember : token ∈ tokens) (opens : token.kind = .openBrace) :
      Blames source tokens (.incomplete token.position)
  | child {error : ValidationError} {child : Node} (placed : Placed tokens child)
      (found : error.found = some child.kind) (refused : child.kind ∉ error.expected)
      (located : error.location = child.location) : Blames source tokens (.invalidNode error)

variable {token : Token} {tokens others front behind recent : List Token} {node : Node}
  {nodes : List Node}

namespace Starts

private theorem through {left : Node} (starts : Starts token left)
    {last : Location} (isLocation : node.location = left.location.through last) :
    Starts token node := by
  constructor
  · rw [isLocation]
    exact starts.position
  · rw [isLocation]
    exact starts.start

private theorem of_token {last : Location}
    (isLocation : node.location = token.location.through last) :
    Starts token node := by
  constructor
  · rw [isLocation]
    rfl
  · rw [isLocation]
    rfl

end Starts

/-- The first of some trees starts with the first token behind the marks in front of it. -/
theorem Built.starts (built : Built tokens nodes) : ∀ node others, nodes = node :: others →
    ∃ before first rest, tokens = before ++ first :: rest ∧
      Built (first :: rest) (node :: others) ∧ Starts first node := by
  induction built with
  | nothing => exact nofun
  | mark => exact nofun
  | @leaf token node isLeaf =>
      rintro _ _ ⟨rfl, rfl⟩
      exact ⟨[], token, [], rfl, .leaf isLeaf, by rw [isLeaf.location_eq],
        by rw [isLeaf.location_eq]⟩
  | @append front behind nodes others first second firstStarts secondStarts =>
      intro node more split
      cases nodes with
      | nil =>
          obtain ⟨before, token, rest, rfl, built, starts⟩ := secondStarts node more split
          exact ⟨front ++ before, token, rest, (List.append_assoc _ _ _).symm, built, starts⟩
      | cons node nodes =>
          obtain ⟨rfl, rfl⟩ := List.cons.inj split
          obtain ⟨before, token, rest, rfl, built, starts⟩ := firstStarts node nodes rfl
          exact ⟨before, token, rest ++ behind, by simp, built.append second, starts⟩
  | @application tokens form head arguments first last children isFirst isLast _ =>
      rintro _ _ ⟨rfl, rfl⟩
      obtain ⟨rest, rfl⟩ := List.head?_eq_some_iff.mp isFirst
      exact ⟨[], first, rest, rfl, .application children isFirst isLast, .of_token rfl⟩
  | @called tokens name location children childStarts =>
      rintro _ _ ⟨rfl, rfl⟩
      obtain ⟨before, token, rest, rfl, built, starts⟩ := childStarts _ _ rfl
      exact ⟨before, token, rest, rfl, .called built, starts.position, starts.start⟩
  | @union tokens members first last children isFirst isLast childStarts =>
      rintro _ _ ⟨rfl, rfl⟩
      obtain ⟨others, rfl⟩ := List.head?_eq_some_iff.mp isFirst
      obtain ⟨before, token, rest, rfl, built, starts⟩ := childStarts _ _ rfl
      exact ⟨before, token, rest, rfl, .union built isFirst isLast, starts.through rfl⟩
  | @math front after operator sign form left right plain isOperator arithmetic lefts rights
      leftStarts _ =>
      rintro _ _ ⟨rfl, rfl⟩
      obtain ⟨before, token, rest, rfl, built, starts⟩ := leftStarts _ _ rfl
      refine ⟨before, token, rest ++ operator :: after, by simp, ?_, starts.through rfl⟩
      exact .math (List.forall_mem_append.mp plain).2 isOperator arithmetic built rights
  | @assignment front after equals left right isEquals lefts rights leftStarts _ =>
      rintro _ _ ⟨rfl, rfl⟩
      obtain ⟨before, token, rest, rfl, built, starts⟩ := leftStarts _ _ rfl
      refine ⟨before, token, rest ++ equals :: after, by simp, ?_, starts.through rfl⟩
      exact .assignment isEquals built rights
  | block opens closes children _ =>
      rintro _ _ ⟨rfl, rfl⟩
      exact ⟨[], _, _, rfl, .block opens closes children, .of_token rfl⟩
  | statement isKeyword children _ =>
      rintro _ _ ⟨rfl, rfl⟩
      exact ⟨[], _, _, rfl, .statement isKeyword children, .of_token rfl⟩

namespace Placed

private theorem mono (placed : Placed tokens node) (within : tokens <:+: others) :
    Placed others node := by
  obtain ⟨first, rest, row, built, starts⟩ := placed
  exact ⟨first, rest, row.trans within, built, starts⟩

private theorem of_built (built : Built tokens [node]) : Placed tokens node := by
  obtain ⟨before, first, rest, rfl, built, starts⟩ := built.starts node [] rfl
  exact ⟨first, rest, List.IsSuffix.isInfix ⟨before, rfl⟩, built, starts⟩

end Placed

def AllPlaced (tokens : List Token) (nodes : List Node) : Prop :=
  ∀ node ∈ Node.listed nodes, Placed tokens node

namespace AllPlaced

theorem mono (placed : AllPlaced tokens nodes) (within : tokens <:+: others) :
    AllPlaced others nodes :=
  fun node isMember => (placed node isMember).mono within

theorem append {more : List Node} (first : AllPlaced tokens nodes)
    (second : AllPlaced tokens more) : AllPlaced tokens (nodes ++ more) := by
  unfold AllPlaced
  rw [Node.listed_append]
  exact List.forall_mem_append.mpr ⟨first, second⟩

theorem cons (first : AllPlaced tokens [node]) (second : AllPlaced tokens nodes) :
    AllPlaced tokens (node :: nodes) := first.append second

private theorem parent (built : Built tokens [node]) (children : AllPlaced tokens node.children) :
    AllPlaced tokens [node] := by
  unfold AllPlaced
  rw [Node.listed_singleton]
  exact List.forall_mem_cons.mpr ⟨.of_built built, children⟩

end AllPlaced

/-- All trees that stand over tokens are placed among them. -/
theorem Built.placed (built : Built tokens nodes) : AllPlaced tokens nodes := by
  induction built with
  | nothing => exact nofun
  | mark => exact nofun
  | leaf isLeaf =>
      refine .parent (.leaf isLeaf) ?_
      rw [isLeaf.children_eq]
      exact nofun
  | @append front behind _ _ _ _ first second =>
      exact (first.mono (List.prefix_append front behind).isInfix).append
        (second.mono (List.suffix_append front behind).isInfix)
  | application children isFirst isLast placed =>
      exact .parent (.application children isFirst isLast) placed
  | called children placed => exact .parent (.called children) placed
  | union children isFirst isLast placed => exact .parent (.union children isFirst isLast) placed
  | @math before after token _ _ _ _ plain isOperator arithmetic lefts rights left right =>
      refine .parent (.math plain isOperator arithmetic lefts rights) (.cons ?_ ?_)
      · exact left.mono (List.prefix_append before _).isInfix
      · exact right.mono ⟨before ++ [token], [], by simp⟩
  | @assignment before after token _ _ isEquals lefts rights left right =>
      refine .parent (.assignment isEquals lefts rights) (.cons ?_ ?_)
      · exact left.mono (List.prefix_append before _).isInfix
      · exact right.mono ⟨before ++ [token], [], by simp⟩
  | @block opening closing inside _ opens closes children placed =>
      refine .parent (.block opens closes children) (placed.mono ⟨[opening], [closing], rfl⟩)
  | @statement head _ _ _ isKeyword children placed =>
      exact .parent (.statement isKeyword children)
        (placed.mono (List.suffix_cons head _).isInfix)

namespace Node

/-- What stands in a field of a node is listed among the nodes below it. -/
theorem mem_listed_children {field : Field} {child : Node}
    (isChild : child ∈ node.childrenAt field) :
    child ∈ listed node.children := by
  unfold childrenAt at isChild
  split at isChild
  case h_4 form left right inside outside =>
    -- The sides of a declared assignment stand one level deeper.
    rw [List.mem_singleton.mp isChild]
    change left ∈ listed [assignment left right inside]
    rw [listed_singleton]
    exact List.mem_cons_of_mem _ (mem_listed List.mem_cons_self)
  case h_5 form left right inside outside =>
    rw [List.mem_singleton.mp isChild]
    change right ∈ listed [assignment left right inside]
    rw [listed_singleton]
    exact List.mem_cons_of_mem _ (mem_listed (List.mem_cons_of_mem _ List.mem_cons_self))
  case h_13 => cases isChild
  all_goals
    refine mem_listed ?_
    simp only [children]
    simp_all

end Node

/-- The error of a node that has children blames one of them. -/
theorem Blames.of_fault {source : Source} {error : ValidationError}
    (faulty : node.firstFault? = some error) (hasMember : ∀ location, node ≠ .union [] location)
    (placed : AllPlaced tokens node.children) : Blames source tokens (.invalidNode error) := by
  cases (Node.firstFault?_eq_some_iff node error).mp faulty with
  | @child before after slot order earlier refused parent field expected found located =>
      have isSlot := Node.mem_slots_of_order order slot List.mem_concat_self
      obtain ⟨row, _, inRow⟩ := List.mem_flatMap.mp isSlot
      obtain ⟨child, isChild, rfl⟩ := List.mem_map.mp inRow
      refine .child (placed child (Node.mem_listed_children isChild)) found ?_ located
      rw [expected]
      exact refused
  | noMember isEmpty => exact absurd isEmpty (hasMember _)

namespace Parse

variable {Result First Second : Type}

/-- Whether a step behind some tokens, where it fails, blames something among all tokens. -/
structure Explains (recent : List Token) (step : Parse Result) : Prop where
  blames : ∀ {source : Source} {entry : Option Location} {past ahead : List Token}
    {error : ParseError} {behind : Parser},
    step (.between source entry (recent.reverse ++ past) ahead) = (.error error, behind) →
      Blames source (past.reverse ++ recent ++ ahead) error

def Succeeds (step : Parse Result) : Prop :=
  ∀ parser, ∃ result behind, step parser = (.ok result, behind)

theorem Succeeds.advance : Succeeds advance := fun _ => ⟨_, _, rfl⟩

theorem Succeeds.takeIf (condition : Token → Bool) : Succeeds (takeIf condition) := by
  intro parser
  obtain ⟨found, middle, ran⟩ := Succeeds.advance parser
  unfold Parse.takeIf
  rw [bind_of_ok ran]
  cases found with
  | none => exact ⟨none, middle, rfl⟩
  | some token =>
      dsimp only
      split
      · exact ⟨some token, middle, rfl⟩
      · exact ⟨none, _, rfl⟩

theorem Succeeds.takeOperator : Succeeds takeOperator := by
  intro parser
  obtain ⟨found, middle, ran⟩ := Succeeds.takeIf (·.kind.operator?.isSome) parser
  exact ⟨_, middle, bind_of_ok ran⟩

namespace Explains

theorem of_succeeds {step : Parse Result} (succeeds : Succeeds step) : Explains recent step := by
  constructor
  intro source entry past ahead error behind failed
  obtain ⟨result, middle, ran⟩ := succeeds (.between source entry (recent.reverse ++ past) ahead)
  rw [ran] at failed
  cases failed

protected theorem pure (result : Result) : Explains recent (pure result) :=
  of_succeeds fun parser => ⟨result, parser, rfl⟩

protected theorem unexpected (isMember : token ∈ recent) :
    Explains recent (unexpected token : Parse Result) := by
  constructor
  intro source entry past ahead error behind failed
  cases failed
  exact .token (List.mem_append_left _ (List.mem_append_right _ isMember))

protected theorem unexpectedEnd : Explains recent (unexpectedEnd : Parse Result) := by
  constructor
  intro source entry past ahead error behind failed
  cases failed
  exact .ending

protected theorem incomplete (isMember : token ∈ recent) (opens : token.kind = .openBrace) :
    Explains recent (fail (.incomplete token.position) : Parse Result) := by
  constructor
  intro source entry past ahead error behind failed
  cases failed
  exact .opening (List.mem_append_left _ (List.mem_append_right _ isMember)) opens

protected theorem build (placed : AllPlaced recent node.children)
    (hasMember : ∀ location, node ≠ .union [] location) : Explains recent (build node) := by
  constructor
  intro source entry past ahead error behind failed
  cases faulty : node.firstFault? with
  | none =>
      rw [build_of_sound faulty] at failed
      cases failed
  | some fault =>
      rw [build_of_fault faulty] at failed
      cases failed
      exact .of_fault faulty hasMember (placed.mono ⟨past.reverse, ahead, rfl⟩)

/-- What a step explains does not depend on tokens further in front. -/
theorem extend {step : Parse Result} (earlier : List Token) (explains : Explains recent step) :
    Explains (earlier ++ recent) step := by
  constructor
  intro source entry past ahead error behind failed
  rw [List.reverse_append, List.append_assoc] at failed
  have blames := explains.blames failed
  rw [List.reverse_append, List.reverse_reverse] at blames
  simpa only [List.append_assoc] using blames

protected theorem bind {step : Parse First} {rest : First → Parse Second}
    {relation : List Token → First → Prop} (first : Explains recent step)
    (yields : Yields step relation)
    (second : ∀ taken result, relation taken result → Explains (recent ++ taken) (rest result)) :
    Explains recent (step >>= rest) := by
  constructor
  intro source entry past ahead error behind failed
  cases ran : step (.between source entry (recent.reverse ++ past) ahead) with
  | mk outcome middle =>
      cases outcome with
      | error early =>
          rw [bind_of_error ran] at failed
          cases failed
          exact first.blames ran
      | ok result =>
          obtain ⟨found, taken, left, rfl, rfl, holds⟩ := yields.behind ran
          rw [bind_of_ok ran, ← List.append_assoc, ← List.reverse_append] at failed
          have blames := (second taken result holds).blames failed
          simpa only [List.append_assoc] using blames

theorem look_bind {step : Parse First} {rest : First → Parse Second}
    (looks : ∀ parser, ∃ result, step parser = (.ok result, parser))
    (second : ∀ result, Explains recent (rest result)) : Explains recent (step >>= rest) := by
  constructor
  intro source entry past ahead error behind failed
  obtain ⟨result, ran⟩ := looks (.between source entry (recent.reverse ++ past) ahead)
  rw [bind_of_ok ran] at failed
  exact (second result).blames failed

theorem check_bind {step : Parse First} {rest : First → Parse Second} {holds : First → Prop}
    (first : Explains recent step)
    (yields : Yields step fun taken result => taken = [] ∧ holds result)
    (second : ∀ result, holds result → Explains recent (rest result)) :
    Explains recent (step >>= rest) := by
  refine .bind first yields fun taken result checked => ?_
  rw [checked.1, List.append_nil]
  exact second result checked.2

theorem next_bind {rest : Token → Parse Second}
    (second : ∀ token, Explains (recent ++ [token]) (rest token)) :
    Explains recent (next >>= rest) := by
  refine .bind ?_ .next fun taken token single => ?_
  · constructor
    intro source entry past ahead error behind failed
    cases ahead with
    | nil =>
        rw [next_nil] at failed
        cases failed
        exact .ending
    | cons token ahead =>
        rw [next_cons] at failed
        cases failed
  · rw [single]
    exact second token

theorem advance_bind {rest : Option Token → Parse Second} (stops : Explains recent (rest none))
    (goesOn : ∀ token, Explains (recent ++ [token]) (rest (some token))) :
    Explains recent (advance >>= rest) := by
  refine .bind (of_succeeds .advance) .advance fun taken found single => ?_
  rw [single]
  cases found with
  | none => exact (List.append_nil recent).symm ▸ stops
  | some token => exact goesOn token

theorem takeIf_bind {condition : Token → Bool} {rest : Option Token → Parse Second}
    (stops : Explains recent (rest none))
    (goesOn : ∀ token, condition token = true → Explains (recent ++ [token]) (rest (some token))) :
    Explains recent (takeIf condition >>= rest) := by
  refine .bind (of_succeeds (.takeIf condition)) (.takeIf condition) fun taken found single => ?_
  rw [single.1]
  cases found with
  | none => exact (List.append_nil recent).symm ▸ stops
  | some token => exact goesOn token (single.2 token rfl)

/-- Inside a block, the end of the text is blamed on the opening brace. -/
theorem insideBlock {step : Parse Result} (explains : Explains recent step)
    (isMember : token ∈ recent) (opens : token.kind = .openBrace) :
    Explains recent (step.mapError (.insideBlock token.position)) := by
  constructor
  intro source entry past ahead error behind failed
  unfold mapError at failed
  cases ran : step (.between source entry (recent.reverse ++ past) ahead) with
  | mk outcome middle =>
      rw [ran] at failed
      cases outcome with
      | ok result => cases failed
      | error early =>
          cases failed
          cases explains.blames ran with
          | ending =>
              exact .opening (List.mem_append_left _ (List.mem_append_right _ isMember)) opens
          | token isMember => exact .token isMember
          | opening isMember opens => exact .opening isMember opens
          | child placed found refused located => exact .child placed found refused located

end Explains

end Parse

end SprigCompiler
