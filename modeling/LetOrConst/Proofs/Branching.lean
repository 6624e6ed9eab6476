/-
Document order by recursion. The walk of a tree keeps an agenda of nodes; here its order is given by
recursion (a node, then what is right below it from left to right, each with all below it) and the
two are shown to agree. Inductions over trees go over lists of nodes: what holds of the nodes below
the first node and of the nodes after it holds of the whole list.
-/
import LetOrConst.Branching

namespace LetOrConst.Branching

variable {α : Type} [SizeOf α] (b : Branching α)

theorem sizeOf_below_lt_cons (n : α) (rest : List α) : sizeOf (b.below n) < sizeOf (n :: rest) := by
  have := b.smaller n
  simp only [List.cons.sizeOf_spec]
  omega

theorem sizeOf_rest_lt_cons (n : α) (rest : List α) : sizeOf rest < sizeOf (n :: rest) := by
  simp only [List.cons.sizeOf_spec]
  omega

/-- Induction over lists of trees, down below the first and along the rest. -/
theorem forest_induction {P : List α → Prop} (nil : P []) (cons : ∀ n rest, P (b.below n) → P rest → P (n :: rest)) :
    ∀ ns, P ns
  | [] => nil
  | n :: rest => cons n rest (forest_induction nil cons (b.below n)) (forest_induction nil cons rest)
termination_by ns => sizeOf ns
decreasing_by
  · exact b.sizeOf_below_lt_cons n rest
  · exact sizeOf_rest_lt_cons n rest

/-- A node and all below it: the node first, then those right below it in order, each with all below it. -/
def preorder (b : Branching α) (n : α) : List α := n :: (b.below n).attach.flatMap fun ⟨c, _⟩ => b.preorder c
termination_by sizeOf n
decreasing_by exact b.sizeOf_lt_of_mem (by assumption)

theorem preorder_eq (n : α) : b.preorder n = n :: (b.below n).flatMap b.preorder := by
  rw [preorder]
  simp [List.flatMap_subtype]

/-- The agenda yields the recursive order. -/
theorem walkAll_eq (ns : List α) : b.walkAll ns = ns.flatMap b.preorder := by
  fun_induction walkAll b ns with
  | case1 => rfl
  | case2 n rest ih => rw [ih, List.flatMap_append, List.flatMap_cons, preorder_eq, List.cons_append]

theorem walk_eq (root : α) : b.walk root = b.preorder root := by
  rw [walk, walkAll_eq, List.flatMap_singleton]

theorem mem_preorder_self (n : α) : n ∈ b.preorder n := by
  rw [preorder_eq]
  exact List.mem_cons_self

end LetOrConst.Branching
