/-
From a grammar tree to the tree of kinds. Tokens and comments are dropped, fields are kept as
places among the children, and the head of a loop over a collection is recast so that the
variable it introduces stands in a declaration like any other.

The nodes are built bottom-up from an agenda: a node is first entered, which puts its visible
children before it, and is built once they are, from the finished nodes on top of a stack.
-/
import LetOrConst.Grammar.Node
import LetOrConst.Tree.Node

namespace LetOrConst.Tree

open Grammar (Point)

/-- The first entry for every key. -/
def firstEntries {α : Type} : List (String × α) → List (String × α)
  | [] => []
  | (k, v) :: rest => (k, v) :: (firstEntries rest).filter (·.1 ≠ k)

/-- The fields of a node with the given visible children: for every field name the first child that
stands under it. -/
def fieldSlots (visible : List Grammar.Node) : List (String × Slot) :=
  firstEntries <| visible.zipIdx.filterMap fun (c, i) =>
    match c.field with
    | some f => if f = "" then none else some (f, .child i)
    | none => none

/-- The text of the first child under `kind`, the place of a declaration's keyword. -/
def keywordText? (n : Grammar.Node) (bytes : List UInt8) : Option String :=
  (n.fieldChild? "kind").map (·.text bytes)

/-- The label of a node by itself. -/
def labelOf (bytes : List UInt8) (n : Grammar.Node) : Label where
  kind := .ofType n.type
  type := n.type
  line := n.point.row + 1
  column := n.point.column + 1
  name := if Kind.ofType n.type = .identifier then some (n.text bytes) else none
  keyword :=
    if n.type = "variable_declaration" then some .kwVar
    else if n.type = "lexical_declaration" then (keywordText? n bytes).bind Keyword.ofText?
    else none
  operator :=
    if n.type = "assignment_expression" then some "="
    else if n.type = "augmented_assignment_expression" then
      (n.fieldChild? "operator").map (·.text bytes)
    else none

/-- A declaration of the single target `left`, placed at its keyword. -/
def headDeclaration (keyword : Keyword) (place : Point) (left : Node) : Node where
  label :=
    { kind := .declaration
      type := if keyword = .kwVar then "variable_declaration" else "lexical_declaration"
      line := place.row + 1
      column := place.column + 1
      keyword := some keyword }
  children :=
    [{ label :=
        { kind := .declarator
          type := "variable_declarator"
          line := left.line
          column := left.column }
       children := [left]
       fields := [("name", .child 0)] }]

/-- The keyword in the head of a loop over a collection, with its place. -/
def headKeyword? (bytes : List UInt8) (n : Grammar.Node) : Option (Keyword × Point) :=
  if n.type = "for_in_statement" then
    (n.fieldChild? "kind").bind fun k => (Keyword.ofText? (k.text bytes)).map (·, k.point)
  else none

/-- The node for `n` over its finished children. -/
def build (bytes : List UInt8) (n : Grammar.Node) (children : List Node) : Node :=
  let fields := fieldSlots n.visible
  let children :=
    match headKeyword? bytes n, fields.lookup "left" with
    | some (keyword, place), some (.child i) =>
      children.modify i (headDeclaration keyword place)
    | _, _ => children
  { label := labelOf bytes n, children, fields }

/-- Works off an agenda over the stack of finished nodes, the last one on top: entering a node puts
its visible children before it, leaving it builds it. -/
def assemble (bytes : List UInt8) : List (Pending Grammar.Node) → List Node → List Node
  | [], done => done
  | .enter n :: rest, done => assemble bytes (n.visible.map .enter ++ .leave n :: rest) done
  | .leave n :: rest, done =>
    let count := n.visible.length
    assemble bytes rest (build bytes n (done.take count).reverse :: done.drop count)
termination_by agenda => Pending.totalWeight agenda
decreasing_by
  · exact Pending.totalWeight_below_lt Grammar.Node.visibly n rest
  · exact Pending.totalWeight_rest_lt n rest

/-- The tree of a grammar tree over the bytes of its text. -/
def ofGrammar (bytes : List UInt8) (root : Grammar.Node) : Node :=
  (assemble bytes [.enter root] []).headD (build bytes root [])

end LetOrConst.Tree
