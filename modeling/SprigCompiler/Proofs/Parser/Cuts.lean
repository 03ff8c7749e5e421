import SprigCompiler.Proofs.Parser.Completeness

/-!
Expressions that are cut off.

When the tokens end within a derivation, either those that are left derive something themselves, or
the step that reads them runs out of tokens.  It is never refused for what it has read so far.
-/

namespace SprigCompiler.Parse

open Grammar (Literal Atom Listed Arguments Named Term Operand Chain Value Members TypeBody)

variable {Result : Type} {source : Source} {entry : Option Location} {past taken cut : List Token}
  {token head : Token} {tree : Node} {fuel : Nat} {lexemes : List Lexeme}

def Fails (step : Parse Result) (parser : Parser) (error : ParseError) : Prop :=
  ∃ behind, step parser = (.error error, behind)

theorem Fails.bind {Second : Type} {step : Parse Result} {parser : Parser} {error : ParseError}
    (fails : Fails step parser error) (rest : Result → Parse Second) :
    Fails (step >>= rest) parser error := by
  obtain ⟨behind, failed⟩ := fails
  exact ⟨behind, bind_of_error failed⟩

/-- Whether a step fails because the tokens of a text run out. -/
def RunsOut (source : Source) (step : Parse Result) (parser : Parser) : Prop :=
  Fails step parser (.unexpectedEnd source.endPosition)

theorem next_runsOut : RunsOut source next (.between source entry past []) := ⟨_, next_nil⟩

private theorem argumentsUpTo_atom (source : Source) (entry : Option Location) (past : List Token)
    (closing : TokenKind) (count : Nat) (atom : Atom token.lexeme tree) :
    RunsOut source (argumentsUpTo closing (count + 1)) (.between source entry past [token]) := by
  obtain ⟨node, read, _⟩ := atom_complete atom (.between source entry (token :: past) [])
  refine ⟨.between source entry (token :: past) [], (bind_of_ok next_cons).trans ?_⟩
  apply (congrFun (if_pos (isAtom_of_atom atom)) _).trans
  exact (bind_of_ok read).trans (bind_of_error next_nil)

private theorem argumentsUpTo_cut (source : Source) (entry : Option Location) (past : List Token)
    {trees : List Node} (closing : TokenKind) (count : Nat) (derivation : Listed lexemes trees)
    (cutOff : cut.map Token.lexeme <+: lexemes) (noComma : closing ≠ .comma) :
    RunsOut source (argumentsUpTo closing count) (.between source entry past cut) := by
  induction derivation generalizing cut past count with
  | last atom =>
      cases count with
      | zero => exact ⟨_, rfl⟩
      | succ count =>
          cases cut with
          | nil => exact next_runsOut.bind _
          | cons token cut =>
              obtain ⟨rfl, cutRest⟩ := List.cons_prefix_cons.mp cutOff
              rw [List.map_eq_nil_iff.mp (List.prefix_nil.mp cutRest)]
              exact argumentsUpTo_atom source entry past closing count atom
  | more comma atom _ inductionHypothesis =>
      cases count with
      | zero => exact ⟨_, rfl⟩
      | succ count =>
          cases cut with
          | nil => exact next_runsOut.bind _
          | cons token cut =>
              obtain ⟨rfl, cutComma⟩ := List.cons_prefix_cons.mp cutOff
              cases cut with
              | nil => exact argumentsUpTo_atom source entry past closing count atom
              | cons separator cut =>
                  obtain ⟨isComma, cutRest⟩ := List.cons_prefix_cons.mp cutComma
                  have goesOn : separator.kind = .comma := kind_of_lexeme_eq isComma
                  have unfinished : separator.kind ≠ closing := by
                    rw [goesOn]
                    exact noComma.symm
                  obtain ⟨node, read, _⟩ := atom_complete atom
                    (.between source entry (token :: past) (separator :: cut))
                  obtain ⟨behind, ran⟩ :=
                    inductionHypothesis (separator :: token :: past) count cutRest
                  refine ⟨behind, (bind_of_ok next_cons).trans ?_⟩
                  apply (congrFun (if_pos (isAtom_of_atom atom)) _).trans
                  apply (bind_of_ok read).trans
                  apply (bind_of_ok next_cons).trans
                  apply (congrFun (if_neg unfinished) _).trans
                  apply (congrFun (if_pos goesOn) _).trans
                  exact bind_of_error ran

private theorem isAtom_of_listed_cut {trees : List Node} (derivation : Listed lexemes trees)
    (cutOff : (token :: cut).map Token.lexeme <+: lexemes) : token.kind.isAtom = true := by
  cases derivation with
  | last atom =>
      obtain ⟨rfl, _⟩ := List.cons_prefix_cons.mp cutOff
      exact isAtom_of_atom atom
  | more comma atom =>
      obtain ⟨rfl, _⟩ := List.cons_prefix_cons.mp cutOff
      exact isAtom_of_atom atom

private theorem delimitedArguments_cut (source : Source) (entry : Option Location)
    (past : List Token) (opener : Token) {trees : List Node} {closing : TokenKind}
    (derivation : Listed lexemes trees) (cutOff : cut.map Token.lexeme <+: lexemes)
    (noComma : closing ≠ .comma) (noAtom : closing.isAtom = false) :
    RunsOut source (delimitedArguments closing) (.between source entry past (opener :: cut)) := by
  have notYet : ∀ first ∈ cut.head?, (first.kind == closing) = false := by
    intro first isFirst
    cases cut with
    | nil => cases isFirst
    | cons token cut =>
        cases isFirst
        refine beq_eq_false_iff_ne.mpr fun closed => ?_
        have isAtom := isAtom_of_listed_cut derivation cutOff
        rw [closed, noAtom] at isAtom
        cases isAtom
  obtain ⟨behind, ran⟩ := argumentsUpTo_cut source entry (opener :: past) closing cut.length
    derivation cutOff noComma
  refine ⟨behind, (bind_of_ok next_cons).trans ?_⟩
  apply (bind_of_ok (takeIf_of_head notYet)).trans
  exact (bind_of_ok ahead_between).trans ran

private theorem atoms_cut {first : List Lexeme} {trees : List Node}
    (derivations : List.Forall₂ Atom lexemes trees) (cutOff : first <+: lexemes) :
    ∃ others, List.Forall₂ Atom first others := by
  induction first generalizing lexemes trees with
  | nil => exact ⟨[], .nil⟩
  | cons lexeme first inductionHypothesis =>
      cases derivations with
      | nil => cases List.prefix_nil.mp cutOff
      | cons atom derivations =>
          obtain ⟨rfl, cutRest⟩ := List.cons_prefix_cons.mp cutOff
          obtain ⟨others, atoms⟩ := inductionHypothesis derivations cutRest
          exact ⟨_ :: others, .cons atom atoms⟩

private theorem opens_of_delimiters {form : ApplicationForm} {opening closing : TokenKind}
    {start : String} (delimiters : Grammar.Delimiters form opening closing)
    (isOpener : token.lexeme = ⟨opening, start⟩) :
    closingFor? form ((token :: cut).head?.map Token.kind) = some closing := by
  rw [List.head?_cons, Option.map_some, kind_of_lexeme_eq isOpener]
  exact closingFor?_eq_some_iff.mpr delimiters

private theorem named_open (source : Source) (entry : Option Location) {closing : TokenKind}
    (opens : closingFor? (formAfter past) (cut.head?.map Token.kind) = some closing)
    (runsOut : RunsOut source (delimitedArguments closing)
      (.between source entry (head :: past) cut)) :
    RunsOut source (named head) (.between source entry (head :: past) cut) := by
  unfold RunsOut Fails
  rw [named_delimited opens]
  exact Fails.bind runsOut _

/-- What is left of the arguments of a name is such arguments itself, or they are still open. -/
theorem arguments_cut (source : Source) (entry : Option Location) {trees : List Node}
    (derivation : Arguments (formAfter past) lexemes trees)
    (cutOff : (token :: cut).map Token.lexeme <+: lexemes) :
    (∃ others, Arguments (formAfter past) ((token :: cut).map Token.lexeme) others) ∨
      RunsOut source (named head) (.between source entry (head :: past) (token :: cut)) := by
  cases derivation with
  | row atom atoms =>
      obtain ⟨others, derivations⟩ := atoms_cut (.cons atom atoms) cutOff
      cases derivations with
      | cons atom atoms => exact .inl ⟨_, .row atom atoms⟩
  | @empty opening closing start stop delimiters =>
      obtain ⟨isOpener, cutRest⟩ := List.cons_prefix_cons.mp cutOff
      cases cut with
      | nil =>
          have ran : delimitedArguments closing
              (.between source entry (head :: past) [token]) = _ :=
            (bind_of_ok next_cons).trans
              ((bind_of_ok takeIf_nil).trans (bind_of_ok ahead_between))
          exact .inr (named_open source entry (opens_of_delimiters delimiters isOpener) ⟨_, ran⟩)
      | cons closer cut =>
          obtain ⟨isCloser, cutNil⟩ := List.cons_prefix_cons.mp cutRest
          refine .inl ⟨[], ?_⟩
          rw [List.map_cons, List.map_cons, isOpener, isCloser, List.prefix_nil.mp cutNil]
          exact .empty start stop delimiters
  | @listed opening closing inner _ start stop delimiters listed =>
      obtain ⟨isOpener, cutRest⟩ := List.cons_prefix_cons.mp cutOff
      obtain ⟨noComma, noAtom⟩ := plain_of_delimiters delimiters
      rcases List.prefix_concat_iff.mp cutRest with whole | cutInner
      · refine .inl ⟨trees, ?_⟩
        rw [List.map_cons, isOpener, whole]
        exact .listed start stop delimiters listed
      · exact .inr (named_open source entry (opens_of_delimiters delimiters isOpener)
          (delimitedArguments_cut source entry (head :: past) token listed cutInner noComma noAtom))

private theorem named_cut (source : Source) (entry : Option Location)
    (derivation : Named (formAfter past) lexemes tree)
    (cutOff : (head :: cut).map Token.lexeme <+: lexemes) :
    (∃ other, Named (formAfter past) ((head :: cut).map Token.lexeme) other) ∨
      RunsOut source (named head) (.between source entry (head :: past) cut) := by
  cases derivation with
  | name text place =>
      obtain ⟨isName, cutRest⟩ := List.cons_prefix_cons.mp cutOff
      refine .inl ⟨.identifier text place, ?_⟩
      rw [List.map_cons, isName, List.prefix_nil.mp cutRest]
      exact .name text place
  | application text place extent arguments =>
      obtain ⟨isName, cutRest⟩ := List.cons_prefix_cons.mp cutOff
      rw [List.map_cons, isName]
      cases cut with
      | nil => exact .inl ⟨_, .name text place⟩
      | cons token cut =>
          rcases arguments_cut source entry arguments cutRest with ⟨others, whole⟩ | runsOut
          · exact .inl ⟨_, .application text place extent whole⟩
          · exact .inr runsOut

theorem operand_cut (source : Source) (entry : Option Location)
    (derivation : Term (formAfter past) lexemes tree)
    (cutOff : (head :: cut).map Token.lexeme <+: lexemes) :
    (∃ other, Term (formAfter past) ((head :: cut).map Token.lexeme) other) ∨
      RunsOut source (operand head) (.between source entry (head :: past) cut) := by
  cases derivation with
  | named derivation =>
      have isName : head.kind = .identifier := by
        cases derivation <;> exact congrArg Lexeme.kind (List.cons_prefix_cons.mp cutOff).1
      rw [operand_eq_named isName]
      rcases named_cut source entry derivation cutOff with ⟨other, whole⟩ | runsOut
      · exact .inl ⟨other, .named whole⟩
      · exact .inr runsOut
  | literal derivation =>
      obtain ⟨isLiteral, cutRest⟩ := List.cons_prefix_cons.mp cutOff
      refine .inl ⟨tree, ?_⟩
      rw [List.map_cons, isLiteral, List.prefix_nil.mp cutRest]
      exact .literal derivation

/-- A cut through two parts falls into the first part or leaves some of the second. -/
theorem cut_append {first second : List Lexeme}
    (cutOff : cut.map Token.lexeme <+: first ++ second) :
    cut.map Token.lexeme <+: first ∨
      ∃ front token follow, cut = front ++ token :: follow ∧ front.map Token.lexeme = first ∧
        (token :: follow).map Token.lexeme <+: second := by
  obtain ⟨more, same⟩ := cutOff
  rcases List.append_eq_append_iff.mp same with ⟨left, isFirst, _⟩ | ⟨left, isCut, isSecond⟩
  · exact .inl ⟨left, isFirst.symm⟩
  · cases left with
    | nil =>
        refine .inl ⟨[], ?_⟩
        rw [isCut, List.append_nil, List.append_nil]
    | cons lexeme left =>
        obtain ⟨front, behind, rfl, frontSame, behindSame⟩ := List.map_eq_append_iff.mp isCut
        obtain ⟨token, follow, rfl, _, _⟩ := List.map_eq_cons_iff.mp behindSame
        refine .inr ⟨front, token, follow, rfl, frontSame, more, ?_⟩
        rw [behindSame, isSecond]

/-- A cut through two parts with a sign between them falls into the first part, or behind the
sign. -/
theorem cut_append_cons {first second : List Lexeme} {sign : Lexeme} (nonempty : first ≠ [])
    (cutOff : (head :: cut).map Token.lexeme <+: first ++ sign :: second) :
    (head :: cut).map Token.lexeme <+: first ∨
      ∃ front token after, cut = front ++ token :: after ∧
        (head :: front).map Token.lexeme = first ∧ token.lexeme = sign ∧
        after.map Token.lexeme <+: second := by
  rcases cut_append cutOff with inFirst | ⟨front, token, follow, split, frontSame, cutSecond⟩
  · exact .inl inFirst
  · obtain ⟨isSign, cutRest⟩ := List.cons_prefix_cons.mp cutSecond
    cases front with
    | nil => exact absurd frontSame.symm nonempty
    | cons start front =>
        rw [List.cons_append] at split
        obtain ⟨rfl, rfl⟩ := List.cons.inj split
        exact .inr ⟨front, token, follow, rfl, frontSame, isSign, cutRest⟩

theorem expressionWith_runsOut (noBrace : head.kind ≠ .openBrace)
    (runsOut : RunsOut source (operand head) (.between source entry (head :: past) cut)) :
    RunsOut source (expressionWith fuel head) (.between source entry (head :: past) cut) := by
  cases fuel with
  | zero => exact ⟨_, rfl⟩
  | succ fuel =>
      unfold RunsOut
      rw [expressionWith_succ, if_neg noBrace]
      exact Fails.bind runsOut _

theorem head_of_cut {form : ApplicationForm} (derivation : Term form lexemes tree)
    (cutOff : (head :: cut).map Token.lexeme <+: lexemes) : head.kind ≠ .openBrace := by
  intro isBrace
  have inside := derivation.inArguments head.lexeme (cutOff.mem List.mem_cons_self)
  have kinds : head.lexeme.kind = .openBrace := isBrace
  rw [kinds] at inside
  cases inside

/-- Whether every cut through an expression leaves such an expression or makes its reader run out
of tokens. -/
def CutExpression (form : ApplicationForm) (Derives : List Lexeme → Node → Prop) : Prop :=
  ∀ (source : Source) (entry : Option Location) {past : List Token} {head : Token}
    {cut : List Token} {tree : Node} {fuel : Nat} {lexemes : List Lexeme},
    Derives lexemes tree → (head :: cut).map Token.lexeme <+: lexemes →
    formAfter past = form → innerForm (governing past) = form → 2 * cut.length < fuel →
      (∃ other, Derives ((head :: cut).map Token.lexeme) other) ∨
        RunsOut source (expressionWith fuel head) (.between source entry (head :: past) cut)

private theorem term_cut (form : ApplicationForm) : CutExpression form (Term form) := by
  intro source entry past head cut tree fuel lexemes derivation cutOff isForm _ _
  subst isForm
  have noBrace := head_of_cut derivation cutOff
  rcases operand_cut source entry derivation cutOff with whole | runsOut
  · exact .inl whole
  · exact .inr (expressionWith_runsOut noBrace runsOut)

private theorem chain_cut : CutExpression .call Chain := by
  intro source entry past head cut tree fuel lexemes derivation cutOff isForm isInner enough
  induction derivation generalizing past head cut fuel with
  | last operand =>
      rcases term_cut .call source entry operand.term cutOff isForm isInner enough with
        ⟨other, whole⟩ | runsOut
      · exact .inl ⟨other, .last (whole.operand_of_cut operand cutOff)⟩
      · exact .inr runsOut
  | @link before after left right sign operator text place operand arithmetic chain
      inductionHypothesis =>
      rcases cut_append_cons operand.term.ne_nil cutOff with
        cutLeft | ⟨front, token, follow, rfl, frontSame, isSign, cutRight⟩
      · rcases term_cut .call source entry operand.term cutLeft isForm isInner enough with
          ⟨other, whole⟩ | runsOut
        · exact .inl ⟨other, .last (whole.operand_of_cut operand cutLeft)⟩
        · exact .inr runsOut
      · have isOperator : token.kind = .operator sign := kind_of_lexeme_eq isSign
        have term := operand.term
        rw [← isForm] at term
        simp only [List.length_append, List.length_cons] at enough
        obtain ⟨fuel, rfl⟩ : ∃ less, fuel = less + 2 := ⟨fuel - 2, by omega⟩
        obtain ⟨node, alike, ran⟩ := expressionWith_term source entry (token :: follow) (fuel + 1)
          term frontSame (stops_operator isOperator)
        unfold RunsOut Fails
        rw [ran, tailWith_math isOperator arithmetic]
        cases follow with
        | nil => exact .inr (next_runsOut.bind _)
        | cons start follow =>
            obtain ⟨formThere, innerThere⟩ :=
              forms_behind_term operand.term frontSame isOperator isInner
            simp only [List.length_cons] at enough
            have shorter : 2 * follow.length < fuel + 1 := by omega
            rcases inductionHypothesis cutRight formThere innerThere shorter with
              ⟨other, whole⟩ | runsOut
            · refine .inl ⟨.math operator left other place, ?_⟩
              rw [← List.cons_append, List.map_append, frontSame, List.map_cons, isSign]
              exact .link text place operand arithmetic whole
            · obtain ⟨behind, failed⟩ := runsOut
              exact .inr ⟨behind, (bind_of_ok next_cons).trans (bind_of_error failed)⟩

theorem value_cut : CutExpression .call Value := by
  intro source entry past head cut tree fuel lexemes derivation cutOff isForm isInner enough
  cases derivation with
  | term term =>
      rcases term_cut .call source entry term cutOff isForm isInner enough with
        ⟨other, whole⟩ | runsOut
      · exact .inl ⟨other, .term whole⟩
      · exact .inr runsOut
  | chain text place operand arithmetic chain =>
      rcases chain_cut source entry (.link text place operand arithmetic chain) cutOff isForm
        isInner enough with ⟨other, whole⟩ | runsOut
      · exact .inl ⟨other, whole.value⟩
      · exact .inr runsOut

private theorem unionMembers_runsOut (source : Source) (entry : Option Location)
    {form : ApplicationForm} (count : Nat) (derivation : Term form lexemes tree)
    (cutOff : (head :: cut).map Token.lexeme <+: lexemes)
    (runsOut : RunsOut source (operand head) (.between source entry (head :: past) cut)) :
    RunsOut source (unionMembers (count + 1)) (.between source entry past (head :: cut)) := by
  have plain : head.kind.governs = false :=
    derivation.noGoverning head.lexeme (cutOff.mem List.mem_cons_self)
  have goesOn : (!endsUnion head) = true := by
    rw [endsUnion_of_noGoverning plain]
    rfl
  obtain ⟨behind, failed⟩ := runsOut
  exact ⟨behind, (bind_of_ok (takeIf_of_true goesOn)).trans (bind_of_error failed)⟩

private theorem unionMembers_cut (source : Source) (entry : Option Location)
    {form : ApplicationForm} {count : Nat} {trees : List Node}
    (derivation : Members form lexemes trees) (cutOff : cut.map Token.lexeme <+: lexemes)
    (isForm : formAfter past = form) (isInner : innerForm (governing past) = form)
    (enough : cut.length ≤ count) :
    (∃ others, Members form (cut.map Token.lexeme) others) ∨
      RunsOut source (unionMembers count) (.between source entry past cut) := by
  induction derivation generalizing past cut count with
  | nothing =>
      rw [List.prefix_nil.mp cutOff]
      exact .inl ⟨[], .nothing⟩
  | last member =>
      cases cut with
      | nil => exact .inl ⟨[], .nothing⟩
      | cons head cut =>
          obtain ⟨count, rfl⟩ : ∃ less, count = less + 1 := ⟨count - 1, by
            simp only [List.length_cons] at enough
            omega⟩
          rw [← isForm] at member ⊢
          rcases operand_cut source entry member cutOff with ⟨other, whole⟩ | runsOut
          · exact .inl ⟨[other], .last whole⟩
          · exact .inr (unionMembers_runsOut source entry count member cutOff runsOut)
  | @more before after tree _ bar member _ inductionHypothesis =>
      cases cut with
      | nil => exact .inl ⟨[], .nothing⟩
      | cons head cut =>
          obtain ⟨count, rfl⟩ : ∃ less, count = less + 1 := ⟨count - 1, by
            simp only [List.length_cons] at enough
            omega⟩
          rcases cut_append_cons member.ne_nil cutOff with
            cutMember | ⟨front, token, follow, rfl, frontSame, isBar, cutMembers⟩
          · rw [← isForm] at member ⊢
            rcases operand_cut source entry member cutMember with ⟨other, whole⟩ | runsOut
            · exact .inl ⟨[other], .last whole⟩
            · exact .inr (unionMembers_runsOut source entry count member cutMember runsOut)
          · have isOperator : token.kind = .operator .union := kind_of_lexeme_eq isBar
            have takesBar : token.isOperator .union = true := isOperator_of_kind isOperator
            obtain ⟨formThere, innerThere⟩ :=
              forms_behind_term member frontSame isOperator isInner
            simp only [List.length_cons, List.length_append] at enough
            have fewer : follow.length ≤ count := by omega
            rcases inductionHypothesis cutMembers formThere innerThere fewer with
              ⟨others, whole⟩ | ⟨behind, failed⟩
            · refine .inl ⟨tree :: others, ?_⟩
              rw [← List.cons_append, List.map_append, frontSame, List.map_cons, isBar]
              exact .more bar member whole
            · obtain ⟨node, _, ran⟩ := unionMembers_member source entry past (token :: follow)
                member frontSame isForm (stops_operator isOperator) count
              refine .inr ⟨behind, ?_⟩
              rw [← List.cons_append, ran, List.reverse_cons, List.append_assoc]
              exact (bind_of_ok (takeIf_of_true takesBar)).trans (bind_of_error failed)

theorem typeBody_cut : CutExpression .instantiation TypeBody := by
  intro source entry past head cut tree fuel lexemes derivation cutOff isForm isInner enough
  cases derivation with
  | member member =>
      rcases term_cut .instantiation source entry member cutOff isForm isInner enough with
        ⟨other, whole⟩ | runsOut
      · exact .inl ⟨other, .member whole⟩
      · exact .inr runsOut
  | @union before after first others bar place member members =>
      rcases cut_append_cons member.ne_nil cutOff with
        cutMember | ⟨front, token, follow, rfl, frontSame, isBar, cutMembers⟩
      · rcases term_cut .instantiation source entry member cutMember isForm isInner enough with
          ⟨other, whole⟩ | runsOut
        · exact .inl ⟨other, .member whole⟩
        · exact .inr runsOut
      · have isOperator : token.kind = .operator .union := kind_of_lexeme_eq isBar
        obtain ⟨formThere, innerThere⟩ := forms_behind_term member frontSame isOperator isInner
        rcases unionMembers_cut source entry members cutMembers formThere innerThere
          (Nat.le_refl _) with ⟨trees, whole⟩ | ⟨behind, failed⟩
        · refine .inl ⟨.union (first :: trees) place, ?_⟩
          rw [← List.cons_append, List.map_append, frontSame, List.map_cons, isBar]
          exact .union bar place member whole
        · simp only [List.length_append, List.length_cons] at enough
          obtain ⟨fuel, rfl⟩ : ∃ less, fuel = less + 2 := ⟨fuel - 2, by omega⟩
          rw [← isForm] at member
          obtain ⟨node, _, ran⟩ := expressionWith_term source entry (token :: follow) (fuel + 1)
            member frontSame (stops_operator isOperator)
          refine .inr ⟨behind, ?_⟩
          rw [ran, tailWith_binding isOperator rfl]
          exact (bind_of_ok ahead_between).trans (bind_of_error failed)

end SprigCompiler.Parse
