/-
A visit by recursion: enter a node, go through its children unless the visitor declined, leave the
node, go on to the next. The visit works off an agenda instead; entering what stands on the agenda
first and then going on with the rest is what the recursion does.

What holds in the middle of a visit is said of its turns, each of which does the first item of the
agenda (`Step`); they lead to what the whole run gives (`reaches_run`).
-/
import LetOrConst.Tree.Visit
import LetOrConst.Proofs.Tree.Order
import Mathlib.Logic.Relation

namespace LetOrConst.Tree.Visitor

variable {σ : Type}

/-- The state after some trees have been visited one after the other. -/
def fold (v : Visitor σ) : List Node → σ → σ
  | [], s => s
  | n :: rest, s =>
    let entered := (v.enter n s).1
    let gone := if (v.enter n s).2 then v.fold n.children entered else entered
    v.fold rest (v.leave n gone)
termination_by ns => sizeOf ns
decreasing_by
  · exact Node.sizeOf_children_lt_cons n rest
  · exact Branching.sizeOf_rest_lt_cons n rest

/-- What stands on the agenda to be entered is visited by recursion before the rest. -/
theorem run_enter_append (v : Visitor σ) (ns : List Node) (rest : List (Pending Node)) (s : σ) :
    v.run (ns.map .enter ++ rest) s = v.run rest (v.fold ns s) := by
  induction ns using Node.forest_induction generalizing rest s with
  | nil => simp [fold]
  | cons n ns ihc ihr =>
    rw [List.map_cons, List.cons_append, run, fold]
    -- a node that is not gone below stands on the agenda once more, to be left
    split
    · rw [ihc, run, ihr]
    · rw [run, ihr]

theorem visit_eq_fold (v : Visitor σ) (root : Node) (s : σ) : v.visit root s = v.fold [root] s := by
  have h := v.run_enter_append [root] [] s
  rw [List.append_nil, run] at h
  exact h

/-! ## Turn by turn -/

/-- One turn of a visit, from an agenda and a state to the next. -/
inductive Step (v : Visitor σ) : List (Pending Node) × σ → List (Pending Node) × σ → Prop where
  | leave (n : Node) (rest : List (Pending Node)) (s : σ) : Step v (.leave n :: rest, s) (rest, v.leave n s)
  | below (n : Node) (rest : List (Pending Node)) (s : σ) (goes : (v.enter n s).2 = true) :
      Step v (.enter n :: rest, s) (n.children.map .enter ++ .leave n :: rest, (v.enter n s).1)
  | decline (n : Node) (rest : List (Pending Node)) (s : σ) (stays : (v.enter n s).2 = false) :
      Step v (.enter n :: rest, s) (.leave n :: rest, (v.enter n s).1)

theorem reaches_run (v : Visitor σ) (agenda : List (Pending Node)) (s : σ) :
    Relation.ReflTransGen v.Step (agenda, s) ([], v.run agenda s) := by
  fun_induction run v agenda s with
  | case1 s => exact .refl
  | case2 n rest s ih => exact .head (.leave n rest s) ih
  | case3 n rest s goes ih =>
    rw [List.map_subtype fun _ _ => rfl, List.unattach_attach] at ih
    exact .head (.below n rest s goes) ih
  | case4 n rest s stays ih => exact .head (.decline n rest s (Bool.not_eq_true _ ▸ stays)) ih

end LetOrConst.Tree.Visitor
