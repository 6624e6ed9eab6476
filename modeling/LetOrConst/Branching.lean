/-
Trees by what stands right below a node. Whatever else its nodes hold, a tree is walked in document
order with an agenda of nodes, and worked through with an agenda on which every node stands twice:
to be entered before what is below it, and to be left after. That what is below a node is smaller
than the node bounds both.
-/
namespace LetOrConst

/-- A way in which nodes have other nodes right below them. -/
structure Branching (α : Type) [SizeOf α] where
  below : α → List α
  smaller : ∀ n, sizeOf (below n) < sizeOf n

variable {α : Type} [SizeOf α]

namespace Branching

theorem sizeOf_append (xs ys : List α) : sizeOf (xs ++ ys) + 1 = sizeOf xs + sizeOf ys := by
  induction xs with
  | nil => simp; omega
  | cons x xs ih => simp; omega

theorem sizeOf_lt_of_mem (b : Branching α) {n c : α} (h : c ∈ b.below n) : sizeOf c < sizeOf n :=
  Nat.lt_trans (List.sizeOf_lt_of_mem h) (b.smaller n)

/-- The nodes still to be visited and all that is below them, each before what is below it. -/
def walkAll (b : Branching α) : List α → List α
  | [] => []
  | n :: rest => n :: b.walkAll (b.below n ++ rest)
termination_by agenda => sizeOf agenda
decreasing_by
  have := sizeOf_append (b.below n) rest
  have := b.smaller n
  simp; omega

/-- A node and all that is below it in document order. -/
def walk (b : Branching α) (root : α) : List α := b.walkAll [root]

end Branching

/-- What is still to be done with a node: what comes before the nodes below it, or what comes after
them. -/
inductive Pending (α : Type) where
  | enter (n : α)
  | leave (n : α)

namespace Pending

/-- How much work an item can still cause. -/
noncomputable def weight : Pending α → Nat
  | enter n => 2 * sizeOf n
  | leave _ => 1

/-- The work of an agenda. -/
noncomputable def totalWeight : List (Pending α) → Nat
  | [] => 0
  | p :: rest => p.weight + totalWeight rest

theorem totalWeight_enter_le (nodes : List α) (rest : List (Pending α)) :
    totalWeight (nodes.map enter ++ rest) + 2 ≤ 2 * sizeOf nodes + totalWeight rest := by
  induction nodes with
  | nil => simp; omega
  | cons n nodes ih => simp [totalWeight, weight] at *; omega

/-- Entering what is below a node and leaving the node is less work than entering it. -/
theorem totalWeight_below_lt (b : Branching α) (n : α) (rest : List (Pending α)) :
    totalWeight ((b.below n).map enter ++ leave n :: rest) < totalWeight (enter n :: rest) := by
  have hbelow := totalWeight_enter_le (b.below n) (leave n :: rest)
  have hsmaller := b.smaller n
  simp only [totalWeight, weight] at *
  omega

theorem totalWeight_leave_lt (b : Branching α) (n : α) (rest : List (Pending α)) :
    totalWeight (leave n :: rest) < totalWeight (enter n :: rest) := by
  have hsmaller := b.smaller n
  simp only [totalWeight, weight]
  omega

theorem totalWeight_rest_lt (n : α) (rest : List (Pending α)) :
    totalWeight rest < totalWeight (leave n :: rest) := by
  simp [totalWeight, weight]

end Pending
end LetOrConst
