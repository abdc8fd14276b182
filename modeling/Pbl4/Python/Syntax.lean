/-
This file defines the abstract syntax of Python as far as import statements are
concerned, and `ast.walk`. The walk keeps a worklist: it yields the first node and
appends the node's children to the end. Every node of the tree is yielded, at any
nesting depth, and no other.
-/

import Mathlib.Data.List.Basic

namespace Python

/-! ### Nodes -/

/-- A module name as the parser reads it after `from`: it is never empty. -/
structure ModuleName where
  text : String
  nonempty : text ≠ ""
  deriving DecidableEq

/-- A syntax tree. Import statements keep what they name; every other node keeps its
children. The alias nodes below an import statement hold no statement and are left out. -/
inductive Node where
  | importModules (names : List String)
  | importFrom (module : Option ModuleName) (names : List String) (level : Nat)
  | other (children : List Node)

namespace Node

/-- `ast.iter_child_nodes` -/
def children : Node → List Node
  | .importModules _ | .importFrom _ _ _ => []
  | .other children => children

mutual

/-- The number of nodes of a tree. -/
def size : Node → Nat
  | .importModules _ | .importFrom _ _ _ => 1
  | .other children => sizes children + 1

/-- The number of nodes of some trees. -/
def sizes : List Node → Nat
  | [] => 0
  | node :: rest => node.size + sizes rest

end

theorem size_eq (node : Node) : node.size = sizes node.children + 1 := by
  cases node with
  | importModules names => simp only [size, children, sizes]
  | importFrom module names level => simp only [size, children, sizes]
  | other inner => simp only [size, children]

theorem sizes_append (first second : List Node) :
    sizes (first ++ second) = sizes first + sizes second := by
  induction first with
  | nil => simp only [List.nil_append, sizes, Nat.zero_add]
  | cons node rest inductionHypothesis =>
    simp only [List.cons_append, sizes, inductionHypothesis, Nat.add_assoc]

/-- A node occurs in a tree, at any depth. -/
inductive Within : Node → Node → Prop
  | self (root : Node) : Within root root
  | child {node inner root : Node} (member : inner ∈ root.children)
      (within : Within node inner) : Within node root

theorem within_iff {node root : Node} :
    node.Within root ↔ node = root ∨ ∃ inner ∈ root.children, node.Within inner := by
  constructor
  · intro within
    cases within with
    | self => exact Or.inl rfl
    | child member inside => exact Or.inr ⟨_, member, inside⟩
  · rintro (rfl | ⟨inner, member, inside⟩)
    · exact .self node
    · exact .child member inside

end Node

/-! ### The walk -/

/-- The loop of `ast.walk` over its worklist. Each turn takes one node off; `fuel` bounds
the turns. -/
def walkFrom : Nat → List Node → List Node
  | 0, _ => []
  | _ + 1, [] => []
  | fuel + 1, node :: todo => node :: walkFrom fuel (todo ++ node.children)

/-- `ast.walk` -/
def walk (root : Node) : List Node := walkFrom root.size [root]

/-- With a turn for every node, the loop yields the nodes of the trees of its worklist. -/
theorem mem_walkFrom {node : Node} {fuel : Nat} {todo : List Node}
    (enough : Node.sizes todo ≤ fuel) :
    node ∈ walkFrom fuel todo ↔ ∃ root ∈ todo, node.Within root := by
  induction fuel generalizing todo with
  | zero =>
    cases todo with
    | nil => simp only [walkFrom, List.not_mem_nil, false_and, exists_false]
    | cons root rest =>
      rw [Node.sizes, root.size_eq] at enough
      omega
  | succ fuel inductionHypothesis =>
    cases todo with
    | nil => simp only [walkFrom, List.not_mem_nil, false_and, exists_false]
    | cons root rest =>
      have shorter : Node.sizes (rest ++ root.children) ≤ fuel := by
        rw [Node.sizes, root.size_eq] at enough
        rw [Node.sizes_append]
        omega
      rw [walkFrom, List.mem_cons, inductionHypothesis shorter, List.exists_mem_cons_iff,
        Node.within_iff]
      simp only [List.mem_append, or_and_right, exists_or]
      exact (or_congr_right or_comm).trans or_assoc.symm

/-- `ast.walk` yields the nodes of the tree. -/
theorem mem_walk {node root : Node} : node ∈ walk root ↔ node.Within root := by
  have enough : Node.sizes [root] ≤ root.size := Nat.le_of_eq (Nat.add_zero _)
  rw [walk, mem_walkFrom enough]
  exact ⟨fun ⟨_, member, within⟩ => List.mem_singleton.mp member ▸ within,
    fun within => ⟨root, List.mem_singleton_self root, within⟩⟩

end Python
