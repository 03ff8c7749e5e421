import SprigCompiler.Proofs.Parser.Building
import SprigCompiler.Proofs.Parser.Texts
import SprigCompiler.Proofs.Token.Spans

/-!
Trees as nested spans of the text.

The locations of nodes are put together from those of tokens, and tokens stand one behind the other.
So the characters that a node covers hold those of its children, in order and apart.
-/

namespace SprigCompiler

/-- Whether a name or a literal can be written with some characters that have others behind them.
The closing quote of a string can be missing at the end of the text only. -/
def Node.WrittenAs (inside behind : List Char) : Node → Prop
  | .identifier name _ => inside = name.toList
  | .number value _ => Decimal.read? inside = some value
  | .string value _ =>
      inside = '"' :: (value.toList ++ ['"']) ∨ inside = '"' :: value.toList ∧ behind = []
  | _ => True

/-- Whether a node covers characters of a text that it can be written with, and its children cover
some of these, in order and apart. -/
structure Node.Mapped (content : String) (node : Node) : Prop where
  slice : ∃ front inside behind, node.location.Covers content front inside behind ∧
    node.WrittenAs inside behind
  within : ∀ child ∈ node.children, node.location.start ≤ child.location.start ∧
    child.location.stop ≤ node.location.stop
  increasing : node.children.Pairwise fun first second =>
    first.location.stop ≤ second.location.start

/-- Whether a location covers characters of a text and lies between the start of one token and the
end of another. -/
structure Location.Amid (content : String) (tokens : List Token) (location : Location) : Prop where
  covers : ∃ front inside behind, location.Covers content front inside behind
  start : ∃ token ∈ tokens, token.location.start ≤ location.start
  stop : ∃ token ∈ tokens, location.stop ≤ token.location.stop

structure Laid (content : String) (tokens : List Token) (nodes : List Node) : Prop where
  mapped : ∀ node ∈ Node.listed nodes, node.Mapped content
  amid : ∀ node ∈ Node.listed nodes, node.location.Amid content tokens
  increasing : nodes.Pairwise fun first second => first.location.stop ≤ second.location.start
  rising : (Node.listed nodes).Pairwise fun first second =>
    first.location.start ≤ second.location.start

variable {content : String} {tokens others front behind : List Token} {token : Token}
  {nodes more : List Node} {node : Node} {location other : Location}

namespace Location.Amid

theorem of_token (spread : Spread content tokens) (isMember : token ∈ tokens) :
    token.location.Amid content tokens where
  covers := by
    obtain ⟨front, inside, behind, covers, _⟩ := spread.stands token isMember
    exact ⟨front, inside, behind, covers⟩
  start := ⟨token, isMember, Nat.le_refl _⟩
  stop := ⟨token, isMember, Nat.le_refl _⟩

theorem mono (amid : location.Amid content tokens) (subset : tokens ⊆ others) :
    location.Amid content others where
  covers := amid.covers
  start := by
    obtain ⟨token, isMember, starts⟩ := amid.start
    exact ⟨token, subset isMember, starts⟩
  stop := by
    obtain ⟨token, isMember, stops⟩ := amid.stop
    exact ⟨token, subset isMember, stops⟩

theorem start_le_stop (amid : location.Amid content tokens) : location.start ≤ location.stop := by
  obtain ⟨_, _, _, covers⟩ := amid.covers
  exact covers.start_le_stop

private theorem through (first : location.Amid content tokens) (last : other.Amid content tokens) :
    (location.through other).Amid content tokens where
  covers := by
    obtain ⟨front, inside, behind, covers⟩ := first.covers
    obtain ⟨_, _, _, others⟩ := last.covers
    exact ⟨front, covers.through others⟩
  start := first.start
  stop := by
    obtain ⟨firstToken, isFirst, firstStops⟩ := first.stop
    obtain ⟨lastToken, isLast, lastStops⟩ := last.stop
    rcases Nat.le_total other.stop location.stop with earlier | later
    · exact ⟨firstToken, isFirst, Nat.max_le.mpr ⟨Nat.le_trans earlier firstStops, firstStops⟩⟩
    · exact ⟨lastToken, isLast, Nat.max_le.mpr ⟨lastStops, Nat.le_trans later lastStops⟩⟩

/-- What lies amid earlier tokens ends before what lies amid later ones starts. -/
theorem stop_le_start (first : location.Amid content front) (second : other.Amid content behind)
    (spread : Spread content (front ++ behind)) : location.stop ≤ other.start := by
  obtain ⟨last, isLast, stops⟩ := first.stop
  obtain ⟨next, isNext, starts⟩ := second.start
  have apart := (List.pairwise_append.mp spread.increasing).2.2 last isLast next isNext
  omega

end Location.Amid

theorem Leaf.children_eq (leaf : Leaf token node) : node.children = [] := by
  cases leaf <;> rfl

private theorem Leaf.writtenAs {inside behind : List Char} (leaf : Leaf token node)
    (written : token.lexeme.WrittenAs inside behind) : node.WrittenAs inside behind := by
  cases leaf with
  | identifier text location =>
      cases written
      rfl
  | string text location =>
      cases written with
      | openString => exact .inr ⟨rfl, rfl⟩
      | closedString => exact .inl rfl
      | plain noString => contradiction
  | number text value location numeral =>
      cases written
      exact numeral
  | boolean text location => trivial

theorem Node.mem_listed (isMember : node ∈ nodes) : node ∈ listed nodes :=
  mem_listed_of_mem isMember (by rw [listed_singleton]; exact List.mem_cons_self)

namespace Laid

private theorem nothing : Laid content tokens [] := ⟨nofun, nofun, .nil, .nil⟩

theorem mono (laid : Laid content tokens nodes) (subset : tokens ⊆ others) :
    Laid content others nodes where
  mapped := laid.mapped
  amid := fun node isMember => (laid.amid node isMember).mono subset
  increasing := laid.increasing
  rising := laid.rising

theorem append (spread : Spread content (front ++ behind)) (first : Laid content front nodes)
    (second : Laid content behind more) : Laid content (front ++ behind) (nodes ++ more) where
  mapped := by
    rw [Node.listed_append]
    exact List.forall_mem_append.mpr ⟨first.mapped, second.mapped⟩
  amid := by
    rw [Node.listed_append]
    refine List.forall_mem_append.mpr ⟨fun node isFirst => ?_, fun node isSecond => ?_⟩
    · exact (first.amid node isFirst).mono (List.subset_append_left front behind)
    · exact (second.amid node isSecond).mono (List.subset_append_right front behind)
  increasing := by
    refine List.pairwise_append.mpr ⟨first.increasing, second.increasing, ?_⟩
    intro node isFirst other isSecond
    have amid := first.amid node (Node.mem_listed isFirst)
    exact amid.stop_le_start (second.amid other (Node.mem_listed isSecond)) spread
  rising := by
    rw [Node.listed_append]
    refine List.pairwise_append.mpr ⟨first.rising, second.rising, ?_⟩
    intro node isFirst other isSecond
    have amid := first.amid node isFirst
    have apart := amid.stop_le_start (second.amid other isSecond) spread
    exact Nat.le_trans amid.start_le_stop apart

private theorem leaf (spread : Spread content [token]) (isLeaf : Leaf token node) :
    Laid content [token] [node] := by
  have amid := Location.Amid.of_token spread List.mem_cons_self
  rw [← isLeaf.location_eq] at amid
  have slice : ∃ front inside behind, node.location.Covers content front inside behind ∧
      node.WrittenAs inside behind := by
    obtain ⟨front, inside, behind, covers, written⟩ := spread.stands token List.mem_cons_self
    rw [← isLeaf.location_eq] at covers
    exact ⟨front, inside, behind, covers, isLeaf.writtenAs written⟩
  have mapped : node.Mapped content := by
    refine ⟨slice, ?_, ?_⟩
    all_goals
      rw [isLeaf.children_eq]
    · exact nofun
    · exact .nil
  constructor
  · rw [isLeaf.listed_eq]
    exact List.forall_mem_singleton.mpr mapped
  · rw [isLeaf.listed_eq]
    exact List.forall_mem_singleton.mpr amid
  · exact List.pairwise_singleton _ _
  · rw [isLeaf.listed_eq]
    exact List.pairwise_singleton _ _

/-- A node is laid out around its children. -/
theorem parent {first last : Location} (laid : Laid content tokens node.children)
    (isLocation : node.location = first.through last)
    (plain : ∀ inside behind, node.WrittenAs inside behind)
    (firstAmid : first.Amid content tokens) (lastAmid : last.Amid content tokens)
    (starts : ∀ child ∈ Node.listed node.children, first.start ≤ child.location.start)
    (stops : ∀ child ∈ node.children, child.location.stop ≤ last.stop) :
    Laid content tokens [node] := by
  have amid : node.location.Amid content tokens := by
    rw [isLocation]
    exact firstAmid.through lastAmid
  have starts : ∀ child ∈ Node.listed node.children,
      node.location.start ≤ child.location.start := by
    rw [isLocation]
    exact starts
  -- Every node below starts no earlier, but only the children have to end in time: what is below
  -- them ends with them.
  have mapped : node.Mapped content := by
    refine ⟨?_, fun child isChild => ⟨starts child (Node.mem_listed isChild), ?_⟩, laid.increasing⟩
    · obtain ⟨front, inside, behind, covers⟩ := amid.covers
      exact ⟨front, inside, behind, covers, plain inside behind⟩
    · rw [isLocation]
      exact Nat.le_trans (stops child isChild) (Nat.le_max_left _ _)
  constructor
  · rw [Node.listed_singleton]
    exact List.forall_mem_cons.mpr ⟨mapped, laid.mapped⟩
  · rw [Node.listed_singleton]
    exact List.forall_mem_cons.mpr ⟨amid, laid.amid⟩
  · exact List.pairwise_singleton _ _
  · rw [Node.listed_singleton]
    exact List.pairwise_cons.mpr ⟨starts, laid.rising⟩

theorem token_le (laid : Laid content tokens nodes) (spread : Spread content tokens)
    (isFirst : tokens.head? = some token) :
    ∀ child ∈ Node.listed nodes, token.location.start ≤ child.location.start := by
  intro child isChild
  obtain ⟨other, isMember, starts⟩ := (laid.amid child isChild).start
  exact Nat.le_trans (spread.first_le isFirst other isMember) starts

private theorem le_token (laid : Laid content tokens nodes) (spread : Spread content tokens)
    (isLast : tokens.getLast? = some token) :
    ∀ child ∈ nodes, child.location.stop ≤ token.location.stop := by
  intro child isChild
  obtain ⟨other, isMember, stops⟩ := (laid.amid child (Node.mem_listed isChild)).stop
  have forward : ∀ token ∈ tokens, token.location.start ≤ token.location.stop :=
    fun token isMember => (spread.stands token isMember).start_le_stop
  exact Nat.le_trans stops (stop_le_of_getLast? forward spread.increasing isLast other isMember)

private theorem node_le (laid : Laid content tokens nodes) (isFirst : nodes.head? = some node) :
    ∀ child ∈ Node.listed nodes, node.location.start ≤ child.location.start := by
  obtain ⟨rest, rfl⟩ := List.head?_eq_some_iff.mp isFirst
  have rising := laid.rising
  have whole : node :: rest = [node] ++ rest := rfl
  rw [whole, Node.listed_append, Node.listed_singleton, List.cons_append] at rising ⊢
  exact List.forall_mem_cons.mpr ⟨Nat.le_refl _, (List.pairwise_cons.mp rising).1⟩

theorem le_node (laid : Laid content tokens nodes) (isLast : nodes.getLast? = some node) :
    ∀ child ∈ nodes, child.location.stop ≤ node.location.stop :=
  have forward : ∀ child ∈ nodes, child.location.start ≤ child.location.stop :=
    fun child isChild => (laid.amid child (Node.mem_listed isChild)).start_le_stop
  stop_le_of_getLast? forward laid.increasing isLast

private theorem parent_of_tokens {first last : Token} (laid : Laid content tokens node.children)
    (spread : Spread content tokens) (isFirst : tokens.head? = some first)
    (isLast : tokens.getLast? = some last)
    (isLocation : node.location = first.location.through last.location)
    (plain : ∀ inside behind, node.WrittenAs inside behind) : Laid content tokens [node] :=
  have firstAmid := Location.Amid.of_token spread (List.mem_of_head? isFirst)
  have lastAmid := Location.Amid.of_token spread (List.mem_of_getLast? isLast)
  laid.parent isLocation plain firstAmid lastAmid (laid.token_le spread isFirst)
    (laid.le_token spread isLast)

private theorem parent_of_children {first last : Node} (laid : Laid content tokens node.children)
    (isFirst : node.children.head? = some first) (isLast : node.children.getLast? = some last)
    (isLocation : node.location = first.location.through last.location)
    (plain : ∀ inside behind, node.WrittenAs inside behind) : Laid content tokens [node] :=
  have firstAmid := laid.amid first (Node.mem_listed (List.mem_of_head? isFirst))
  have lastAmid := laid.amid last (Node.mem_listed (List.mem_of_getLast? isLast))
  laid.parent isLocation plain firstAmid lastAmid (laid.node_le isFirst) (laid.le_node isLast)

private theorem sides {left right : Node} (spread : Spread content (front ++ token :: behind))
    (lefts : Spread content front → Laid content front [left])
    (rights : Spread content behind → Laid content behind [right]) :
    Laid content (front ++ token :: behind) [left, right] := by
  have before := spread.sublist (List.sublist_append_left _ _)
  have after := spread.sublist (List.sublist_append_right _ _)
  have rights := rights (after.sublist (List.sublist_cons_self _ _))
  exact .append spread (lefts before) (rights.mono (List.subset_cons_self _ _))

end Laid

private theorem Location.through_self (location : Location) :
    location.through location = location := by
  rw [through, Nat.max_self]

/-- Trees that stand over tokens of a text are laid out over them. -/
theorem Built.laid (built : Built tokens nodes) (spread : Spread content tokens) :
    Laid content tokens nodes := by
  induction built with
  | nothing => exact .nothing
  | mark => exact .nothing
  | leaf isLeaf => exact .leaf spread isLeaf
  | append first second firstLaid secondLaid =>
      exact .append spread (firstLaid (spread.sublist (List.sublist_append_left _ _)))
        (secondLaid (spread.sublist (List.sublist_append_right _ _)))
  | application children isFirst isLast laid =>
      exact (laid spread).parent_of_tokens spread isFirst isLast rfl fun _ _ => trivial
  | @called tokens name location children laid =>
      have isLocation := (Location.through_self location).symm
      exact (laid spread).parent_of_children rfl rfl isLocation fun _ _ => trivial
  | union children isFirst isLast laid =>
      exact (laid spread).parent_of_children isFirst isLast rfl fun _ _ => trivial
  | math plain isOperator arithmetic lefts rights leftLaid rightLaid =>
      have laid := Laid.sides spread leftLaid rightLaid
      exact laid.parent_of_children rfl rfl rfl fun _ _ => trivial
  | assignment isEquals lefts rights leftLaid rightLaid =>
      have laid := Laid.sides spread leftLaid rightLaid
      exact laid.parent_of_children rfl rfl rfl fun _ _ => trivial
  | @block opening closing inside body opens closes children laid =>
      have behind := spread.sublist (List.sublist_cons_self _ _)
      have within : inside ⊆ opening :: (inside ++ [closing]) := fun token isMember =>
        List.mem_cons_of_mem _ (List.mem_append_left _ isMember)
      have laid := (laid (behind.sublist (List.sublist_append_left _ _))).mono within
      have isLast : (opening :: inside ++ [closing]).getLast? = some closing :=
        List.getLast?_concat
      exact laid.parent_of_tokens spread rfl isLast rfl fun _ _ => trivial
  | @statement head tokens word value isKeyword children laid =>
      have laid := (laid (spread.sublist (List.sublist_cons_self _ _))).mono
        (List.subset_cons_self head tokens)
      have headAmid := Location.Amid.of_token spread List.mem_cons_self
      have valueAmid := laid.amid value (Node.mem_listed List.mem_cons_self)
      exact laid.parent rfl (fun _ _ => trivial) headAmid valueAmid (laid.token_le spread rfl)
        (laid.le_node rfl)

private theorem covers_extent (content : String) :
    (Source.ofString content).extent.Covers content [] content.toList [] where
  whole := by rw [List.nil_append, List.append_nil]
  start := rfl
  stop := by
    change (Place.origin.afterAll content.toList).offset = _
    rw [Place.offset_afterAll_eq, List.nil_append]
    exact Nat.zero_add _
  position := @Source.position?_byteCount [] content.toList content rfl

/-- The tree of a text is built from tokens that are read strictly. -/
theorem tokens_of_parse {tree : Node} (parsed : parse content = .ok tree) :
    ∃ tokens taken body, Token.ofText? true content = .ok tokens ∧ taken.Sublist tokens ∧
      Built taken body ∧ tree = .program body (Source.ofString content).extent := by
  cases read : Token.ofText? true content with
  | error error =>
      rw [parse_eq_of_stray read] at parsed
      cases parsed
  | ok tokens =>
      rw [parse_eq_of_tokens read, Parser.ofTokens_eq_between] at parsed
      obtain ⟨behind, ran⟩ : ∃ behind,
          Parse.program (.between (.ofString content) none [] tokens) = (.ok tree, behind) :=
        ⟨_, Prod.ext parsed rfl⟩
      unfold Parse.program at ran
      rw [Parse.bind_of_ok Parse.ahead_between] at ran
      obtain ⟨body, middle, ranBody, ran⟩ := Parse.bind_eq_ok ran
      obtain ⟨found, taken, rest, rfl, rfl, built⟩ := (Parse.yields_statements _).behind ranBody
      obtain ⟨_, rfl, _⟩ := Parse.build_eq_ok ran
      exact ⟨_, taken, body, rfl, List.sublist_append_left taken rest, built, rfl⟩

private theorem built_of_parse {tree : Node} (parsed : parse content = .ok tree) :
    ∃ tokens body, Spread content tokens ∧ Built tokens body ∧
      tree = .program body (Source.ofString content).extent := by
  obtain ⟨tokens, taken, body, read, among, built, isTree⟩ := tokens_of_parse parsed
  exact ⟨taken, body, (spread_of_ofText? read).sublist among, built, isTree⟩

/-- The locations in the tree of a text are a map of the text: the tree covers all of it, every node
covers characters that it can be written with and its children cover some of these, in order and
apart, and going through the tree never goes back in the text. -/
theorem parse_mapped {tree : Node} (parsed : parse content = .ok tree) :
    tree.location.start = 0 ∧ tree.location.stop = content.utf8ByteSize ∧
      (∀ node ∈ Node.listed [tree], node.Mapped content) ∧
      (Node.listed [tree]).Pairwise fun first second =>
        first.location.start ≤ second.location.start := by
  obtain ⟨tokens, body, spread, built, rfl⟩ := built_of_parse parsed
  have laid := built.laid spread
  have extent := covers_extent content
  have mapped : (Node.program body (Source.ofString content).extent).Mapped content := by
    refine ⟨⟨[], content.toList, [], extent, trivial⟩, fun child isChild => ⟨?_, ?_⟩,
      laid.increasing⟩
    · exact Nat.zero_le _
    · obtain ⟨_, _, _, covers⟩ := (laid.amid child (Node.mem_listed isChild)).covers
      refine Nat.le_trans covers.stop_le ?_
      rw [← byteCount_toList]
      exact Nat.le_of_eq extent.stop.symm
  refine ⟨rfl, ?_, ?_, ?_⟩
  · rw [← byteCount_toList]
    exact extent.stop
  · rw [Node.listed_singleton]
    exact List.forall_mem_cons.mpr ⟨mapped, laid.mapped⟩
  · rw [Node.listed_singleton]
    exact List.pairwise_cons.mpr ⟨fun _ _ => Nat.zero_le _, laid.rising⟩

/-- A string that runs to the end of the text, with a letter of two bytes. -/
theorem parse_mapped_openString :
    ∃ tree, parse "let a = \"é" = .ok tree ∧
      tree.location.start = 0 ∧ tree.location.stop = "let a = \"é".utf8ByteSize ∧
      (∀ node ∈ Node.listed [tree], node.Mapped "let a = \"é") ∧
      (Node.listed [tree]).Pairwise fun first second =>
        first.location.start ≤ second.location.start := by
  let sides : Node := .assignment (.identifier "a" ⟨1, 4, 4, 5⟩) (.string "é" ⟨1, 8, 8, 11⟩)
    ⟨1, 4, 4, 11⟩
  let tree : Node := .program [.statement .binding sides ⟨1, 0, 0, 11⟩] ⟨1, 0, 0, 11⟩
  have read : Token.ofText? true "let a = \"é" = .ok [⟨.keyword .letWord, "let", ⟨1, 0, 0, 3⟩⟩,
      ⟨.identifier, "a", ⟨1, 4, 4, 5⟩⟩, ⟨.operator .assign, "=", ⟨1, 6, 6, 7⟩⟩,
      ⟨.string, "é", ⟨1, 8, 8, 11⟩⟩] := by
    decide +kernel
  have parsed : parse "let a = \"é" = .ok tree := (parse_eq_of_tokens read).trans rfl
  exact ⟨tree, parsed, parse_mapped parsed⟩

end SprigCompiler
