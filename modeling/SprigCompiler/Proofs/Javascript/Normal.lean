import SprigCompiler.Proofs.Javascript.Locations
import SprigCompiler.Proofs.Javascript.Pages

/-!
Normal forms of trees.

Some trees differ and have the same JavaScript: types leave nothing behind, a function may return a
value without a block or declare no parameters without a list, and three names are the spellings of
values.  The normal form of a tree makes these differences disappear and nothing else, and it has
the same JavaScript as the tree.
-/

namespace SprigCompiler.Node

/-- The literal that a name is the spelling of, or else the name. -/
def valueOf (name : String) (place : Location) : Node :=
  if name = "true" then .boolean true place
  else if name = "false" then .boolean false place
  else if name = "Infinity" then
    .number (.ofMagnitude false Binary64.infiniteMagnitude) place
  else .identifier name place

def withParameters (isBare : Bool) (head : Node) : Node :=
  if isBare then .application .functionParameters head [] head.location else head

def asBlock (isBody : Bool) (body : Node) : Node :=
  if isBody then body else .block [.statement .result body body.location] body.location

mutual
/-- The normal form of a tree: without type declarations, every function with a list of parameters
and a block, and the names `true`, `false` and `Infinity` as the values that they spell. -/
def normalized : Node → Node
  | program body place => .program (normalizedBody body) place
  | identifier name place => valueOf name place
  | statement .function (assignment left right between) place =>
      .statement .function
        (.assignment (withParameters left.isIdentifier (normalized left))
          (asBlock right.isBlock (normalized right)) between)
        place
  | statement form value place => .statement form (normalized value) place
  | block body place => .block (normalizedBody body) place
  | application form head arguments place =>
      .application form (normalized head) (normalizedAll arguments) place
  | assignment left right place => .assignment (normalized left) (normalized right) place
  | math operator left right place => .math operator (normalized left) (normalized right) place
  | union members place => .union (normalizedAll members) place
  | string value place => .string value place
  | number value place => .number value place
  | boolean value place => .boolean value place

def normalizedAll : List Node → List Node
  | [] => []
  | node :: rest => normalized node :: normalizedAll rest

def normalizedBody : List Node → List Node
  | [] => []
  | node :: rest =>
      if node.isTypeDeclaration then normalizedBody rest
      else normalized node :: normalizedBody rest
end

private theorem text?_valueOf (name : String) (place : Location) (depth : Nat) :
    (valueOf name place).text? depth = some name := by
  unfold valueOf
  split_ifs with isTrue isFalse isInfinity
  · rw [isTrue]
    rfl
  · rw [isFalse]
    rfl
  · have isWritten : Decimal.write "Infinity" (.ofMagnitude false Binary64.infiniteMagnitude) =
        "Infinity" := by
      decide +kernel
    rw [isInfinity, text?, isWritten]
  · rfl

private theorem isMath_normalized (node : Node) : node.normalized.isMath = node.isMath := by
  cases node with
  | identifier name place =>
      unfold normalized valueOf
      split_ifs <;> rfl
  | statement form value place =>
      cases form <;> cases value <;> rfl
  | _ => rfl

private theorem isBlock_normalized (node : Node) : node.normalized.isBlock = node.isBlock := by
  cases node with
  | identifier name place =>
      unfold normalized valueOf
      split_ifs <;> rfl
  | statement form value place =>
      cases form <;> cases value <;> rfl
  | _ => rfl

theorem isTypeDeclaration_normalized (node : Node) :
    node.normalized.isTypeDeclaration = node.isTypeDeclaration := by
  cases node with
  | identifier name place =>
      unfold normalized valueOf
      split_ifs <;> rfl
  | statement form value place =>
      cases form <;> cases value <;> rfl
  | _ => rfl

private theorem isIdentifier_normalized {node : Node} (isOther : node.isIdentifier = false) :
    node.normalized.isIdentifier = false := by
  cases node with
  | identifier name place => cases isOther
  | statement form value place =>
      cases form <;> cases value <;> rfl
  | _ => rfl

private theorem text?_withParameters {node : Node} (depth : Nat)
    (same : node.normalized.text? depth = node.text? depth) :
    (withParameters node.isIdentifier node.normalized).isIdentifier = false ∧
      (withParameters node.isIdentifier node.normalized).text? depth =
        (node.text? depth).map (· ++ if node.isIdentifier then "()" else "") := by
  unfold withParameters
  cases isBare : node.isIdentifier with
  | true =>
      refine ⟨rfl, ?_⟩
      simp only [if_true, text?, ApplicationForm.lead?, arguments?, same]
      cases text? depth node <;> simp [String.append_assoc]
  | false =>
      refine ⟨isIdentifier_normalized isBare, ?_⟩
      simp only [Bool.false_eq_true, if_false, same, String.append_empty]
      exact Option.map_id'.symm

private theorem text?_asBlock {node : Node} (depth : Nat)
    (same : ∀ depth, node.normalized.text? depth = node.text? depth) :
    (if (asBlock node.isBlock node.normalized).isBlock then
        (asBlock node.isBlock node.normalized).text? depth
      else ((asBlock node.isBlock node.normalized).text? (depth + 1)).map (Page.returned depth)) =
      if node.isBlock then node.text? depth
      else (node.text? (depth + 1)).map (Page.returned depth) := by
  unfold asBlock
  by_cases isBlock : node.isBlock = true
  · rw [if_pos isBlock, if_pos isBlock, isBlock_normalized, if_pos isBlock, same]
  · rw [if_neg isBlock, if_neg isBlock]
    simp only [Node.isBlock, if_true, text?, lines?, isTypeDeclaration, same]
    cases text? (depth + 1) node with
    | none => rfl
    | some value => simp [Page.returned, String.append_assoc]

mutual
/-- The normal form of a tree has the text of the tree. -/
theorem text?_normalized : ∀ (node : Node) (depth : Nat),
    node.normalized.text? depth = node.text? depth
  | program body place, depth => by
      simp only [normalized, text?, paragraphs?_normalized body]
  | identifier name place, depth => text?_valueOf name place depth
  | statement form value place, depth => by
      cases form with
      | function =>
          cases value with
          | assignment left right between =>
              have body := text?_asBlock depth (text?_normalized right)
              obtain ⟨noName, header⟩ := text?_withParameters depth (text?_normalized left depth)
              simp only [normalized, text?, body, header, noName]
              cases text? depth left with
              | none => rfl
              | some header =>
                  simp only [Option.map_some, Option.bind_eq_bind, Option.bind_some,
                    Bool.false_eq_true, if_false, String.append_assoc, String.append_empty]
          | identifier name place =>
              unfold normalized normalized valueOf
              split_ifs <;> rfl
          | statement form value place => cases form <;> cases value <;> rfl
          | _ => rfl
      | _ => simp only [normalized, text?, text?_normalized value]
  | block body place, depth => by
      simp only [normalized, text?, lines?_normalized body]
  | application form head arguments place, depth => by
      simp only [normalized, text?, text?_normalized head, arguments?_normalized arguments]
  | assignment left right place, depth => by
      simp only [normalized, text?, text?_normalized left, text?_normalized right]
  | math operator left right place, depth => by
      simp only [normalized, text?, text?_normalized left, text?_normalized right,
        isMath_normalized]
  | union members place, depth => by rfl
  | string value place, depth => rfl
  | number value place, depth => rfl
  | boolean value place, depth => rfl

theorem paragraphs?_normalized : ∀ (nodes : List Node) (depth : Nat),
    paragraphs? depth (normalizedBody nodes) = paragraphs? depth nodes
  | [], depth => rfl
  | node :: rest, depth => by
      by_cases isType : node.isTypeDeclaration = true
      · rw [normalizedBody, if_pos isType, paragraphs?, if_pos isType, paragraphs?_normalized rest]
      · rw [normalizedBody, if_neg isType, paragraphs?, paragraphs?, isTypeDeclaration_normalized,
          if_neg isType, if_neg isType, text?_normalized node, paragraphs?_normalized rest]

theorem lines?_normalized : ∀ (nodes : List Node) (depth : Nat),
    lines? depth (normalizedBody nodes) = lines? depth nodes
  | [], depth => rfl
  | node :: rest, depth => by
      by_cases isType : node.isTypeDeclaration = true
      · rw [normalizedBody, if_pos isType, lines?, if_pos isType, lines?_normalized rest]
      · rw [normalizedBody, if_neg isType, lines?, lines?, isTypeDeclaration_normalized,
          if_neg isType, if_neg isType, text?_normalized node, lines?_normalized rest]

theorem arguments?_normalized : ∀ (nodes : List Node) (isFirst : Bool) (depth : Nat),
    arguments? depth isFirst (normalizedAll nodes) = arguments? depth isFirst nodes
  | [], isFirst, depth => rfl
  | node :: rest, isFirst, depth => by
      simp only [normalizedAll, arguments?, text?_normalized node, arguments?_normalized rest]
end

/-- Trees with like normal forms have the same JavaScript. -/
theorem javascript?_eq_of_normalized {node other : Node}
    (alike : node.normalized.Alike other.normalized) : node.javascript? = other.javascript? := by
  have same := alike.javascript?_eq
  rw [javascript?_eq, javascript?_eq, text?_normalized, text?_normalized] at same
  rw [javascript?_eq, javascript?_eq, same]

end SprigCompiler.Node
