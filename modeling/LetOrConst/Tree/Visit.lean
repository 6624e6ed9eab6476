/-
Visiting a tree. A visitor is told when a node is entered and when it is left, keeps a state of its
own, and may decline to go below a node, which is left all the same. The visit keeps an agenda of
what is still to be entered or left, so that its depth does not follow the depth of the tree.
-/
import LetOrConst.Tree.Node

namespace LetOrConst.Tree

/-- What a visitor does. `enter` also says whether to go below the node. -/
structure Visitor (σ : Type) where
  enter : Node → σ → σ × Bool
  leave : Node → σ → σ

namespace Visitor

variable {σ : Type}

/-- Works off an agenda. -/
def run (v : Visitor σ) : List (Pending Node) → σ → σ
  | [], s => s
  | .leave n :: rest, s => v.run rest (v.leave n s)
  | .enter n :: rest, s =>
    if (v.enter n s).2 then v.run (n.children.map .enter ++ .leave n :: rest) (v.enter n s).1
    else v.run (.leave n :: rest) (v.enter n s).1
termination_by agenda => Pending.totalWeight agenda
decreasing_by
  · exact Pending.totalWeight_rest_lt n rest
  · simpa [Node.branching] using Pending.totalWeight_below_lt Node.branching n rest
  · exact Pending.totalWeight_leave_lt Node.branching n rest

/-- Visits a whole tree. -/
def visit (v : Visitor σ) (root : Node) (s : σ) : σ := v.run [.enter root] s

end Visitor

/-- Something that happened to a node during a visit. -/
inductive Event where
  | entered (n : Node)
  | left (n : Node)

/-- The visitor that notes the nodes of some kinds as they are entered and left, and goes below no
node of a kind that is both noted and to be skipped. -/
def Visitor.recorder (enter leave skip : List Kind) : Visitor (List Event) where
  enter n seen :=
    if enter.contains n.kind then (seen ++ [.entered n], !skip.contains n.kind) else (seen, true)
  leave n seen := if leave.contains n.kind then seen ++ [.left n] else seen

end LetOrConst.Tree
