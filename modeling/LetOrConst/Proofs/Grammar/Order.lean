/-
Document order of a grammar tree, said by recursion (`preorder`). The agenda of the walk yields the same
order (`walk_eq_preorder`), and a search through it finds the first node with a property (`First`).
-/
import LetOrConst.Grammar.Node
import LetOrConst.Proofs.Branching

namespace LetOrConst.Grammar.Node

/-- A node and all below it: the node first, then its children in order, each with all below it. -/
def preorder (n : Node) : List Node := branching.preorder n

theorem preorder_eq (n : Node) : n.preorder = n :: n.children.flatMap preorder := branching.preorder_eq n

/-- The nodes strictly below a node, in document order. -/
def descendants (n : Node) : List Node := n.children.flatMap preorder

theorem walk_eq_preorder (root : Node) : root.walk = root.preorder := branching.walk_eq root

theorem tail_walk (root : Node) : root.walk.tail = root.descendants := by
  rw [walk_eq_preorder, preorder_eq]
  rfl

/-! ## First nodes -/

/-- The first node of a list that has a property. -/
def First (P : Node → Prop) (ns : List Node) (n : Node) : Prop :=
  ∃ before after, ns = before ++ n :: after ∧ P n ∧ ∀ m ∈ before, ¬ P m

theorem First.unique {P : Node → Prop} {ns : List Node} {m n : Node} (hm : First P ns m) (hn : First P ns n) :
    m = n := by
  obtain ⟨before, after, rfl, hPm, hbefore⟩ := hm
  obtain ⟨before', after', hsplit, hPn, hbefore'⟩ := hn
  -- whichever of the two came first would stand before the other
  rcases List.append_eq_append_iff.1 hsplit with ⟨mid, rfl, hmid⟩ | ⟨mid, rfl, hmid⟩
  · cases mid with
    | nil => cases hmid; rfl
    | cons k mid =>
      cases hmid
      exact absurd hPm (hbefore' m (by simp))
  · cases mid with
    | nil => cases hmid; rfl
    | cons k mid =>
      cases hmid
      exact absurd hPn (hbefore n (by simp))

theorem First.mem {P : Node → Prop} {ns : List Node} {n : Node} (h : First P ns n) : n ∈ ns ∧ P n := by
  obtain ⟨before, after, rfl, hP, -⟩ := h
  exact ⟨by simp, hP⟩

theorem first_iff_find? {p : Node → Bool} {P : Node → Prop} (hp : ∀ n, p n = true ↔ P n) {ns : List Node}
    {n : Node} : First P ns n ↔ ns.find? p = some n := by
  have hnot : ∀ m, ¬ P m ↔ (!p m) = true := fun m => by rw [← hp m, Bool.not_eq_true, Bool.not_eq_true']
  rw [List.find?_eq_some_iff_append, hp]
  constructor
  · rintro ⟨before, after, hsplit, hP, hbefore⟩
    exact ⟨hP, before, after, hsplit, fun m hm => (hnot m).1 (hbefore m hm)⟩
  · rintro ⟨hP, before, after, hsplit, hbefore⟩
    exact ⟨before, after, hsplit, hP, fun m hm => (hnot m).2 (hbefore m hm)⟩

theorem none_of_find? {p : Node → Bool} {P : Node → Prop} (hp : ∀ n, p n = true ↔ P n) {ns : List Node}
    (h : ns.find? p = none) : ∀ n ∈ ns, ¬ P n :=
  fun n hn hP => List.find?_eq_none.1 h n hn ((hp n).2 hP)

end LetOrConst.Grammar.Node
