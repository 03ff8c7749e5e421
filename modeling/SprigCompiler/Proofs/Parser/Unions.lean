import SprigCompiler.Proofs.Parser.Operands

/-!
Unions against the grammar.
-/

namespace SprigCompiler.Parse

open Grammar (Term Members)

variable {source : Source} {entry : Option Location} {past ahead rest : List Token}
  {token head : Token} {parser behind : Parser}

theorem kind_of_isOperator {sign : Operator} (isSign : token.isOperator sign = true) :
    token.kind = .operator sign := eq_of_beq isSign

/-- Whether the tokens ahead cannot belong to the value or type before them: they start with a
keyword or a closing brace, or there are none. -/
def Ends (ahead : List Token) : Prop := ∀ token ∈ ahead.head?, endsUnion token = true

theorem Ends.stops (ends : Ends rest) : Stops rest := by
  intro token isFirst
  have ended := ends token isFirst
  unfold endsUnion at ended
  unfold extendsName
  cases kind : token.kind <;> rw [kind] at ended <;> first | rfl | cases ended

theorem Ends.noOperator (ends : Ends rest) :
    ∀ first ∈ rest.head?, first.kind.operator?.isSome = false := by
  intro token isFirst
  have ended := ends token isFirst
  unfold endsUnion at ended
  cases kind : token.kind <;> rw [kind] at ended <;> first | rfl | cases ended

private theorem Ends.noBar (ends : Ends rest) :
    ∀ first ∈ rest.head?, first.isOperator .union = false := by
  intro token isFirst
  have noOperator := ends.noOperator token isFirst
  unfold Token.isOperator
  rw [beq_eq_false_iff_ne]
  intro isBar
  rw [isBar] at noOperator
  cases noOperator

theorem endsUnion_of_noGoverning (plain : token.kind.governs = false) :
    endsUnion token = false := by
  unfold TokenKind.governs at plain
  simp only [Bool.or_eq_false_iff] at plain
  unfold endsUnion
  rw [plain.1.1, plain.2]
  rfl

theorem stops_operator {sign : Operator} (isOperator : token.kind = .operator sign) :
    Stops (token :: rest) := by
  apply stops_cons
  unfold extendsName
  rw [isOperator]
  rfl

private theorem unionMembers_sound {count : Nat} {nodes : List Node}
    (inner : formAfter past = innerForm (governing past))
    (ran : unionMembers count (.between source entry past ahead) = (.ok nodes, behind)) :
    Took source entry past ahead behind (Members (innerForm (governing past)) · nodes) := by
  induction count generalizing past ahead nodes with
  | zero =>
      cases ran
      exact .nothing .nothing
  | succ count inductionHypothesis =>
      unfold unionMembers at ran
      obtain ⟨found, middle, started, ran⟩ := bind_eq_ok ran
      cases found with
      | none =>
          obtain ⟨rfl, _⟩ := takeIf_eq_none started
          cases ran
          exact .nothing .nothing
      | some token =>
          obtain ⟨_, ahead, rfl, rfl⟩ := takeIf_eq_some started
          obtain ⟨member, middle, read, ran⟩ := bind_eq_ok ran
          obtain ⟨taken, ahead, rfl, rfl, derivation⟩ := operand_sound read
          rw [inner] at derivation
          obtain ⟨bar, middle, stepped, ran⟩ := bind_eq_ok ran
          cases bar with
          | none =>
              obtain ⟨rfl, _⟩ := takeIf_eq_none stepped
              cases ran
              exact ⟨token :: taken, ahead, rfl, by simp, .last derivation⟩
          | some bar =>
              obtain ⟨isBar, ahead, rfl, rfl⟩ := takeIf_eq_some stepped
              have barKind := kind_of_isOperator isBar
              obtain ⟨members, middle, others, ran⟩ := bind_eq_ok ran
              cases ran
              have behindBar : governing (bar :: (taken.reverse ++ token :: past)) =
                  governing past := by
                rw [governing_operator barKind]
                exact governing_taken derivation.noGoverning past
              have inner : formAfter (bar :: (taken.reverse ++ token :: past)) =
                  innerForm (governing (bar :: (taken.reverse ++ token :: past))) := by
                rw [formAfter_operator barKind, governing_operator barKind]
              obtain ⟨more, ahead, rfl, rfl, derivations⟩ := inductionHypothesis inner others
              rw [behindBar] at derivations
              refine ⟨token :: (taken ++ bar :: more), ahead, by simp, by simp, ?_⟩
              simp only [List.map_cons, List.map_append, lexeme_eq barKind]
              exact .more _ derivation derivations

theorem union_sound {first node : Node}
    (inner : formAfter past = innerForm (governing past))
    (ran : union first (.between source entry past ahead) = (.ok node, behind)) :
    Took source entry past ahead behind fun lexemes =>
      ∃ members place, Members (innerForm (governing past)) lexemes members ∧
        node = .union (first :: members) place ∧ node.firstFault? = none := by
  unfold union at ran
  have ran := (bind_of_ok ahead_between).symm.trans ran
  obtain ⟨members, middle, read, ran⟩ := bind_eq_ok ran
  obtain ⟨sound, rfl, rfl⟩ := build_eq_ok ran
  obtain ⟨taken, rest, rfl, rfl, derivations⟩ := unionMembers_sound inner read
  exact ⟨taken, rest, rfl, rfl, members, _, derivations, rfl, sound⟩

theorem isOperator_of_kind {sign : Operator} (isOperator : token.kind = .operator sign) :
    token.isOperator sign = true := by
  unfold Token.isOperator
  rw [isOperator, beq_self_eq_true]

/-- An operator behind lexemes that are no keywords and braces leaves what governs as it was. -/
theorem forms_behind {taken : List Token} {inner : ApplicationForm} {sign : Operator}
    (plain : ∀ lexeme ∈ taken.map Token.lexeme, lexeme.kind.governs = false)
    (isOperator : token.kind = .operator sign) (isInner : innerForm (governing past) = inner) :
    formAfter (token :: (taken.reverse ++ past)) = inner ∧
      innerForm (governing (token :: (taken.reverse ++ past))) = inner := by
  have governed : governing (taken.reverse ++ past) = governing past :=
    governing_append plain past
  constructor
  · rw [formAfter_operator isOperator, governed, isInner]
  · rw [governing_operator isOperator, governed, isInner]

/-- Where a member is ahead, reading the members reads it first, and a bar behind it decides
whether more of them are read. -/
theorem unionMembers_member (source : Source) (entry : Option Location) (past rest : List Token)
    {form : ApplicationForm} {taken : List Token} {lexemes : List Lexeme} {tree : Node}
    (derivation : Term form lexemes tree) (same : taken.map Token.lexeme = lexemes)
    (inner : formAfter past = form) (stops : Stops rest) (count : Nat) :
    ∃ node, node.Alike tree ∧
      unionMembers (count + 1) (.between source entry past (taken ++ rest)) =
        (do
          match ← takeIf (·.isOperator .union) with
          | none => return [node]
          | some _ =>
              let rest ← unionMembers count
              return node :: rest : Parse (List Node))
          (.between source entry (taken.reverse ++ past) rest) := by
  obtain ⟨first, others, rfl⟩ := derivation.nonempty
  obtain ⟨token, more, rfl, isFirst, _⟩ := List.map_eq_cons_iff.mp same
  rw [← inner] at derivation
  obtain ⟨node, read, alike⟩ := operand_complete source entry past rest derivation same stops
  refine ⟨node, alike, ?_⟩
  have plain : token.kind.governs = false := by
    have noGoverning := derivation.noGoverning first List.mem_cons_self
    rw [← isFirst] at noGoverning
    exact noGoverning
  have goesOn : (!endsUnion token) = true := by
    rw [endsUnion_of_noGoverning plain]
    rfl
  apply (bind_of_ok (takeIf_of_true goesOn)).trans
  apply (bind_of_ok read).trans
  rw [List.reverse_cons, List.append_assoc]
  rfl

private theorem unionMembers_complete (source : Source) (entry : Option Location)
    (past rest : List Token) {count : Nat} {taken : List Token} {form : ApplicationForm}
    {lexemes : List Lexeme} {trees : List Node} (derivation : Members form lexemes trees)
    (same : taken.map Token.lexeme = lexemes) (inner : formAfter past = form)
    (governed : innerForm (governing past) = form) (ends : Ends rest)
    (enough : taken.length ≤ count) :
    ∃ nodes, unionMembers count (.between source entry past (taken ++ rest)) =
        (.ok nodes, .between source entry (taken.reverse ++ past) rest) ∧
      Node.AlikeAll nodes trees := by
  induction derivation generalizing past count taken with
  | nothing =>
      rw [List.map_eq_nil_iff] at same
      subst same
      refine ⟨[], ?_, .nil⟩
      cases count with
      | zero => rfl
      | succ count =>
          refine bind_of_ok (takeIf_of_head ?_)
          intro first isFirst
          rw [ends first isFirst]
          rfl
  | last member =>
      cases count with
      | zero =>
          obtain ⟨first, others, rfl⟩ := member.nonempty
          obtain ⟨token, more, rfl, _, _⟩ := List.map_eq_cons_iff.mp same
          cases enough
      | succ count =>
          obtain ⟨node, alike, ran⟩ :=
            unionMembers_member source entry past rest member same inner ends.stops count
          exact ⟨[node], ran.trans (bind_of_ok (takeIf_of_head ends.noBar)), .cons alike .nil⟩
  | @more lexemes _ tree trees bar member _ inductionHypothesis =>
      obtain ⟨taken, follow, rfl, memberSame, signFirst⟩ := List.map_eq_append_iff.mp same
      obtain ⟨sign, others, rfl, isBar, same⟩ := List.map_eq_cons_iff.mp signFirst
      have barKind : sign.kind = .operator .union := kind_of_lexeme_eq isBar
      have takesBar : sign.isOperator .union = true := isOperator_of_kind barKind
      cases count with
      | zero => simp at enough
      | succ count =>
          have fewer : others.length ≤ count := by
            simp only [List.length_append, List.length_cons] at enough
            omega
          obtain ⟨node, alike, ran⟩ := unionMembers_member source entry past
            (sign :: (others ++ rest)) member memberSame inner (stops_operator barKind) count
          have plain : ∀ lexeme ∈ taken.map Token.lexeme, lexeme.kind.governs = false := by
            rw [memberSame]
            exact member.noGoverning
          obtain ⟨innerBehind, governedBehind⟩ := forms_behind plain barKind governed
          obtain ⟨nodes, others, alikeAll⟩ := inductionHypothesis
            (sign :: (taken.reverse ++ past)) same innerBehind governedBehind fewer
          refine ⟨node :: nodes, ?_, .cons alike alikeAll⟩
          rw [List.append_assoc, List.cons_append, ran]
          apply (bind_of_ok (takeIf_of_true takesBar)).trans
          apply (bind_of_ok others).trans
          simp only [List.reverse_append, List.reverse_cons, List.append_assoc, List.cons_append]
          rfl

theorem union_complete (source : Source) (entry : Option Location) (past rest : List Token)
    {taken : List Token} {form : ApplicationForm} {lexemes : List Lexeme} {first tree : Node}
    {trees : List Node} (derivation : Members form lexemes trees)
    (same : taken.map Token.lexeme = lexemes) (inner : formAfter past = form)
    (governed : innerForm (governing past) = form) (ends : Ends rest) (alike : first.Alike tree)
    (place : Location) (sound : (Node.union (tree :: trees) place).firstFault? = none) :
    ∃ node, union first (.between source entry past (taken ++ rest)) =
        (.ok node, .between source entry (taken.reverse ++ past) rest) ∧
      node.Alike (.union (tree :: trees) place) := by
  have enough : taken.length ≤ (taken ++ rest).length := by simp
  obtain ⟨nodes, ran, alikeAll⟩ := unionMembers_complete source entry past rest derivation same
    inner governed ends enough
  have likeness : (Node.union (first :: nodes)
      (first.location.through (nodes.getLast?.getD first).location)).Alike
        (.union (tree :: trees) place) := Node.alike_union _ _ (.cons alike alikeAll)
  refine ⟨_, ?_, likeness⟩
  apply (bind_of_ok ahead_between).trans
  apply (bind_of_ok ran).trans
  exact build_of_sound (likeness.firstFault?_eq_none_iff.mpr sound) _

end SprigCompiler.Parse
