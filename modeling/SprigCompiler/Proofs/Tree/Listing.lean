import SprigCompiler.Tree.Walk

/-!
The nodes of trees as a list.

A node is listed before its children, and these are listed in the order of the source.
-/

namespace SprigCompiler.Node

def children : Node → List Node
  | program body _ => body
  | identifier _ _ => []
  | statement _ value _ => [value]
  | block body _ => body
  | application _ head arguments _ => head :: arguments
  | assignment left right _ => [left, right]
  | math _ left right _ => [left, right]
  | union members _ => members
  | string _ _ => []
  | number _ _ => []
  | boolean _ _ => []

theorem preorder_eq (depth : Nat) (node : Node) :
    node.preorder depth = (depth, node) :: preorderAll (depth + 1) node.children := by
  cases node <;> simp only [preorder, preorderAll, children, List.append_nil]

private theorem preorderAll_append (depth : Nat) (front behind : List Node) :
    preorderAll depth (front ++ behind) = preorderAll depth front ++ preorderAll depth behind := by
  induction front with
  | nil => rfl
  | cons node front inductionHypothesis =>
      rw [List.cons_append, preorderAll, preorderAll, inductionHypothesis, List.append_assoc]

mutual
theorem map_snd_preorder (depth other : Nat) :
    ∀ node : Node, (node.preorder depth).map Prod.snd = (node.preorder other).map Prod.snd
  | program body _ => by
      simp only [preorder, List.map_cons, map_snd_preorderAll (depth + 1) (other + 1) body]
  | identifier _ _ => rfl
  | statement _ value _ => by
      simp only [preorder, List.map_cons, map_snd_preorder (depth + 1) (other + 1) value]
  | block body _ => by
      simp only [preorder, List.map_cons, map_snd_preorderAll (depth + 1) (other + 1) body]
  | application _ head arguments _ => by
      simp only [preorder, List.map_cons, List.map_append,
        map_snd_preorder (depth + 1) (other + 1) head,
        map_snd_preorderAll (depth + 1) (other + 1) arguments]
  | assignment left right _ => by
      simp only [preorder, List.map_cons, List.map_append,
        map_snd_preorder (depth + 1) (other + 1) left,
        map_snd_preorder (depth + 1) (other + 1) right]
  | math _ left right _ => by
      simp only [preorder, List.map_cons, List.map_append,
        map_snd_preorder (depth + 1) (other + 1) left,
        map_snd_preorder (depth + 1) (other + 1) right]
  | union members _ => by
      simp only [preorder, List.map_cons, map_snd_preorderAll (depth + 1) (other + 1) members]
  | string _ _ => rfl
  | number _ _ => rfl
  | boolean _ _ => rfl

private theorem map_snd_preorderAll (depth other : Nat) : ∀ nodes : List Node,
    (preorderAll depth nodes).map Prod.snd = (preorderAll other nodes).map Prod.snd
  | [] => rfl
  | node :: rest => by
      simp only [preorderAll, List.map_append, map_snd_preorder depth other node,
        map_snd_preorderAll depth other rest]
end

def listed (trees : List Node) : List Node := (preorderAll 0 trees).map Prod.snd

theorem listed_append (front behind : List Node) :
    listed (front ++ behind) = listed front ++ listed behind := by
  unfold listed
  rw [preorderAll_append, List.map_append]

theorem listed_singleton (node : Node) : listed [node] = node :: listed node.children := by
  unfold listed
  rw [preorderAll, preorderAll, List.append_nil, preorder_eq, List.map_cons,
    map_snd_preorderAll (0 + 1) 0]

theorem mem_listed_of_mem {node part : Node} {nodes : List Node} (isMember : node ∈ nodes)
    (isPart : part ∈ listed [node]) : part ∈ listed nodes := by
  obtain ⟨front, behind, rfl⟩ := List.append_of_mem isMember
  have whole : front ++ node :: behind = front ++ ([node] ++ behind) := rfl
  rw [whole, listed_append, listed_append]
  exact List.mem_append_right _ (List.mem_append_left _ isPart)

end SprigCompiler.Node
