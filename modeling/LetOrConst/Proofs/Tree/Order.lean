/-
Document order by recursion: a node, then its children from left to right, each with all below it.
All later inductions go over lists of nodes: what holds of the children of the first node and of the
nodes after it holds of the whole list.
-/
import LetOrConst.Proofs.Branching
import LetOrConst.Tree.Node

namespace LetOrConst.Tree.Node

theorem sizeOf_children_lt_cons (n : Node) (rest : List Node) : sizeOf n.children < sizeOf (n :: rest) :=
  branching.sizeOf_below_lt_cons n rest

/-- Induction over lists of trees, down to the children of the first and along the rest. -/
@[elab_as_elim]
theorem forest_induction {P : List Node → Prop} (nil : P [])
    (cons : ∀ n rest, P n.children → P rest → P (n :: rest)) (ns : List Node) : P ns :=
  branching.forest_induction nil cons ns

/-- A node and all below it: the node first, then its children in order, each with all below it. -/
def preorder (n : Node) : List Node := branching.preorder n

theorem preorder_eq (n : Node) : n.preorder = n :: n.children.flatMap preorder := branching.preorder_eq n

/-- The nodes strictly below a node, in document order. -/
def descendants (n : Node) : List Node := n.children.flatMap preorder

theorem walk_eq (root : Node) : root.walk = root.preorder := branching.walk_eq root

end LetOrConst.Tree.Node
