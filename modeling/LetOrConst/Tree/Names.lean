/-
Which names a node introduces or assigns. A declaration target binds the identifiers at its
binding positions: defaults, computed keys and property names bind nothing. An assignment to a
plain name is seen through any parentheses around the name.
-/
import LetOrConst.Tree.Node

namespace LetOrConst.Tree.Node

/-- The name of an identifier, when it has one that is not empty. -/
def properName? (n : Node) : Option String := n.label.name.filter (· ≠ "")

/-- The plain names of a declaration, in source order and with repetitions. A declarator whose
target is a pattern contributes none. -/
def declaredNames (n : Node) : List String :=
  n.declarators.filterMap fun d =>
    match d.child? "name" with
    | some target => if target.kind = .identifier then target.properName? else none
    | none => none

/-- Whether a node is a pair of parentheses around a single node. -/
def isWrapper (n : Node) : Bool :=
  n.type == "parenthesized_expression" && n.children.length == 1

/-- A node without the parentheses around it. -/
def unwrapped (n : Node) : Node :=
  if n.isWrapper then
    match _h : n.children with
    | c :: _ => c.unwrapped
    | [] => n
  else n
termination_by sizeOf n
decreasing_by exact sizeOf_lt_of_mem_children (by rw [_h]; exact List.mem_cons_self)

/-- The name that an assignment to a plain identifier assigns. -/
def assignedName? (n : Node) : Option String :=
  if n.kind = .assignment then
    match n.child? "left" with
    | some left => if left.unwrapped.kind = .identifier then left.unwrapped.label.name else none
    | none => none
  else none

/-- The names that a declaration target or a parameter binds, from left to right. -/
def bindingNames (n : Node) : List String :=
  if n.kind = .identifier then n.properName?.toList
  else if n.kind = .pattern then
    if n.type = "assignment_pattern" ∨ n.type = "object_assignment_pattern" then
      match _h : n.child? "left" with
      | some left => left.bindingNames
      | none => []
    else if n.type = "pair_pattern" then
      match _h : n.child? "value" with
      | some value => value.bindingNames
      | none => []
    else n.children.attach.flatMap fun ⟨c, _⟩ => c.bindingNames
  else []
termination_by sizeOf n
decreasing_by
  · exact sizeOf_lt_of_child? _h
  · exact sizeOf_lt_of_child? _h
  · exact sizeOf_lt_of_mem_children (by assumption)

/-- The names that the node under a field binds. -/
def namesUnder (n : Node) (field : String) : List String :=
  match n.child? field with
  | some target => target.bindingNames
  | none => []

/-- All names that the declarators of a declaration bind, with repetitions. -/
def boundNames (n : Node) : List String := n.declarators.flatMap (·.namesUnder "name")

end LetOrConst.Tree.Node
