/-
Concrete trees as a grammar gives them: every node knows its type, where it starts, which bytes it
covers, whether it is named or a mere token, and under which field its parent holds it. Recovery
from faulty text leaves `ERROR` and missing nodes, which is how a tree says that its text did not
parse.
-/
import LetOrConst.Branching
import LetOrConst.Text.Utf8

namespace LetOrConst.Grammar

/-- A place in a text: rows count newlines, columns count bytes, both from zero. -/
structure Point where
  row : Nat := 0
  column : Nat := 0
  deriving DecidableEq, Repr, Inhabited

/-- The bytes from `start` up to `stop`; empty when `stop` does not lie behind `start`. -/
structure Span where
  start : Nat := 0
  stop : Nat := 0
  deriving DecidableEq, Repr, Inhabited

/-- The bytes of a span, cut to what there is. -/
def Span.slice (s : Span) (bytes : List UInt8) : List UInt8 := (bytes.take s.stop).drop s.start

/-- A node of a concrete tree. -/
structure Node where
  type : String
  point : Point := {}
  span : Span := {}
  named : Bool := true
  missing : Bool := false
  field : Option String := none
  children : List Node := []
  deriving Repr, Inhabited

namespace Node

/-- The text that a node covers, out of the bytes of the whole text. A span that cuts a character
yields replacement characters. -/
def text (n : Node) (bytes : List UInt8) : String :=
  String.ofList (Text.Utf8.decodeLossy (n.span.slice bytes))

/-- The node under another field of its parent. -/
def inField (n : Node) (field : String) : Node := { n with field := some field }

/-- The first child that stands under a field, token or not. -/
def fieldChild? (n : Node) (field : String) : Option Node :=
  n.children.find? (·.field == some field)

/-- Types of nodes that hold remarks. -/
def isComment (n : Node) : Bool := n.type == "comment" || n.type == "html_comment"

/-- A child that takes part in the meaning of its parent: named and no comment. -/
def isVisible (n : Node) : Bool := n.named && !n.isComment

/-- The children that take part in the meaning. -/
def visible (n : Node) : List Node := n.children.filter isVisible

theorem sizeOf_children_lt (n : Node) : sizeOf n.children < sizeOf n := by
  cases n
  simp only [mk.sizeOf_spec]
  omega

theorem sizeOf_filter_le (p : Node → Bool) (xs : List Node) : sizeOf (xs.filter p) ≤ sizeOf xs := by
  induction xs with
  | nil => simp
  | cons x xs ih =>
    simp only [List.filter_cons]
    split <;> simp <;> omega

theorem sizeOf_visible_lt (n : Node) : sizeOf n.visible < sizeOf n :=
  Nat.lt_of_le_of_lt (sizeOf_filter_le _ _) n.sizeOf_children_lt

/-- A tree with tokens and comments. -/
def branching : Branching Node := ⟨children, sizeOf_children_lt⟩

/-- A tree with nothing but what takes part in the meaning. -/
def visibly : Branching Node := ⟨visible, sizeOf_visible_lt⟩

/-- All nodes of a tree in document order, tokens and comments included. -/
def walk (root : Node) : List Node := branching.walk root

/-- A node that recovery left behind. -/
def isFault (n : Node) : Bool := n.type == "ERROR" || n.missing

/-- Whether recovery left a trace anywhere in the tree. -/
def hasFault (root : Node) : Bool := root.walk.any isFault

/-- Where a faulty tree went wrong: the first fault below the root in document order, and the root
itself when there is none below it. -/
def firstFault? (root : Node) : Option Node :=
  if root.hasFault then some ((root.walk.tail.find? isFault).getD root) else none

/-- A node of embedded markup. -/
def isMarkup (n : Node) : Bool := "jsx_".isPrefixOf n.type

/-- The first piece of embedded markup in document order. -/
def firstMarkup? (root : Node) : Option Node := root.walk.find? isMarkup

end Node
end LetOrConst.Grammar
