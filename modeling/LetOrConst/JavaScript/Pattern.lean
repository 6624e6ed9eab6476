/-
Targets of assignments and declarations. A bracket that opens one cannot be told from the bracket of
an array, an object or a parenthesis until its end has been read, so it is read as such and turned
into a pattern when an assignment sign or an arrow follows.
-/
import LetOrConst.JavaScript.Rule

namespace LetOrConst.JavaScript

open Grammar (Node Point)

/-- What can be assigned to as it stands. -/
def isPlace (n : Node) : Bool :=
  ["identifier", "undefined", "member_expression", "subscript_expression"].contains n.type

/-- What is left over goes to a target, which starts at the sign for it. -/
def restPattern (place : Point) (start : Nat) (target : Node) : Node where
  type := "rest_pattern"
  point := place
  span := ⟨start, target.span.stop⟩
  children := [{ target with field := none }]

/-- Whether a node may be a target by itself, neither with a default nor as what is left over. -/
def isBare (n : Node) : Bool := n.type != "assignment_expression" && n.type != "spread_element"

mutual

/-- The element of a pattern that an element of a list stands for: a target, one with a default, or
what is left over. -/
def toElement? : Node → Option Node
  | ⟨type, point, span, named, missing, field, children⟩ =>
    match type, children with
    | "assignment_expression", [left, right] =>
      if left.type = "parenthesized_expression" then none
      else some ⟨"assignment_pattern", point, span, named, missing, field, [left, right]⟩
    | "spread_element", [⟨"assignment_expression", _, _, _, _, _, [left, right]⟩] =>
      if left.type = "parenthesized_expression" then none
      else
        let rest := (restPattern point span.start left).inField "left"
        some ⟨"assignment_pattern", point, span, named, missing, field, [rest, right]⟩
    | "spread_element", [rest] =>
      if isBare rest then (toElement? rest).map (restPattern point span.start) else none
    | "array", cs =>
      (toElements? cs).map fun cs => ⟨"array_pattern", point, span, named, missing, field, cs⟩
    | "object", cs =>
      (toProperties? cs).map fun cs => ⟨"object_pattern", point, span, named, missing, field, cs⟩
    | type, cs =>
      let n : Node := ⟨type, point, span, named, missing, field, cs⟩
      if isPlace n then some n else none

/-- The elements of a pattern. -/
def toElements? : List Node → Option (List Node)
  | [] => some []
  | n :: rest => do return (← toElement? n) :: (← toElements? rest)

/-- The property of a pattern that a property of an object stands for. -/
def toProperty? : Node → Option Node
  | ⟨type, point, span, named, missing, field, children⟩ =>
    match type, children with
    | "shorthand_property_identifier", cs =>
      some ⟨"shorthand_property_identifier_pattern", point, span, named, missing, field, cs⟩
    | "object_assignment_pattern", cs =>
      some ⟨"object_assignment_pattern", point, span, named, missing, field, cs⟩
    | "pair", [key, value] =>
      (toElement? value).map fun v =>
        ⟨"pair_pattern", point, span, named, missing, field, [key, v]⟩
    | "spread_element", [rest] =>
      if isBare rest then (toElement? rest).map (restPattern point span.start) else none
    | _, _ => none

/-- The properties of a pattern. -/
def toProperties? : List Node → Option (List Node)
  | [] => some []
  | n :: rest => do return (← toProperty? n) :: (← toProperties? rest)

end

/-- The target that an expression stands for. -/
def toPattern? (n : Node) : Option Node := if isBare n then toElement? n else none

/-- A default for a property makes sense in a pattern only. -/
def isStrayDefault (n : Node) : Bool :=
  n.type == "object" && n.children.any (·.type == "object_assignment_pattern")

/-- Whether every pattern in a tree was recognised as one. -/
def patternsResolved (n : Node) : Bool := !n.walk.any isStrayDefault

namespace Reader

/-- The result of a conversion, or a failure at the next token. -/
def ofOption {α : Type} : Option α → Reader α
  | some a => return a
  | none => fail

end Reader
end LetOrConst.JavaScript
