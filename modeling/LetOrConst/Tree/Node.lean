/-
The tree that declarations are judged on. It keeps the named nodes of a grammar tree, tags each
with a kind from a closed set, and records the few facts that matter for bindings: names, the
keyword of a declaration, the operator of an assignment, and which child stands under which field.
-/
import LetOrConst.Branching

namespace LetOrConst.Tree

/-- What a node is, as far as bindings are concerned. -/
inductive Kind where
  | program
  | declaration
  | declarator
  | assignment
  | identifier
  | function
  | classDef
  | block
  | catchClause
  | forLoop
  | parameters
  | pattern
  | other
  deriving DecidableEq, Repr, Inhabited

namespace Kind

/-- Every kind. -/
def all : List Kind :=
  [program, declaration, declarator, assignment, identifier, function, classDef, block, catchClause,
    forLoop, parameters, pattern, other]

/-- The name of a kind in reports. -/
def name : Kind → String
  | program => "PROGRAM"
  | declaration => "VARIABLE_DECLARATION"
  | declarator => "VARIABLE_DECLARATOR"
  | assignment => "ASSIGNMENT_EXPRESSION"
  | identifier => "IDENTIFIER"
  | function => "FUNCTION"
  | classDef => "CLASS"
  | block => "BLOCK"
  | catchClause => "CATCH_CLAUSE"
  | forLoop => "FOR_STATEMENT"
  | parameters => "FORMAL_PARAMETERS"
  | pattern => "PATTERN"
  | other => "OTHER"

/-- The kind with a given name. -/
def ofName? (s : String) : Option Kind := all.find? (·.name == s)

/-- The kind of a node of the given grammar type. -/
def ofType : String → Kind
  | "program" => program
  | "variable_declaration" | "lexical_declaration" => declaration
  | "variable_declarator" => declarator
  | "assignment_expression" | "augmented_assignment_expression" => assignment
  | "identifier" | "shorthand_property_identifier_pattern" => identifier
  | "function_declaration" | "function_expression" | "function"
  | "generator_function_declaration" | "generator_function" | "arrow_function"
  | "method_definition" => function
  | "class_declaration" | "class" => classDef
  | "statement_block" | "switch_body" => block
  | "catch_clause" => catchClause
  | "for_statement" | "for_in_statement" => forLoop
  | "formal_parameters" => parameters
  | "object_pattern" | "array_pattern" | "assignment_pattern" | "object_assignment_pattern"
  | "pair_pattern" | "rest_pattern" => pattern
  | _ => other

end Kind

/-- The keyword of a declaration. -/
inductive Keyword where
  | kwVar
  | kwLet
  | kwConst
  deriving DecidableEq, Repr, Inhabited

namespace Keyword

/-- A keyword as it is written. -/
def text : Keyword → String
  | kwVar => "var"
  | kwLet => "let"
  | kwConst => "const"

/-- The keyword with the given spelling. -/
def ofText? (s : String) : Option Keyword := [kwVar, kwLet, kwConst].find? (·.text == s)

/-- Whether the names live in the nearest block rather than in the nearest function. -/
def isBlockScoped (k : Keyword) : Bool := k != kwVar

end Keyword

/-- What is known of a node by itself. Positions count from one. -/
structure Label where
  kind : Kind
  type : String := ""
  line : Int := 1
  column : Int := 1
  /-- The name of an identifier. -/
  name : Option String := none
  /-- The keyword of a declaration. -/
  keyword : Option Keyword := none
  /-- The operator of an assignment. -/
  operator : Option String := none
  deriving DecidableEq, Repr, Inhabited

/-- Where the node of a field is kept: among the children, or apart from them. -/
inductive Slot where
  | child (index : Nat)
  | apart (index : Nat)
  deriving DecidableEq, Repr, Inhabited

/-- A node: its label, its children in source order, its fields, and the nodes that are reached
through a field only. -/
structure Node where
  label : Label
  children : List Node := []
  fields : List (String × Slot) := []
  apart : List Node := []
  deriving Repr, Inhabited

namespace Node

/-- The kind of a node. -/
def kind (n : Node) : Kind := n.label.kind

/-- The grammar type of a node. -/
def type (n : Node) : String := n.label.type

/-- The line a node starts on. -/
def line (n : Node) : Int := n.label.line

/-- The column a node starts at. -/
def column (n : Node) : Int := n.label.column

/-- The node in a slot. -/
def inSlot? (n : Node) : Slot → Option Node
  | .child i => n.children[i]?
  | .apart i => n.apart[i]?

/-- The node under a field. -/
def child? (n : Node) (field : String) : Option Node :=
  (n.fields.lookup field).bind n.inSlot?

theorem sizeOf_children_lt (n : Node) : sizeOf n.children < sizeOf n := by
  cases n
  simp only [mk.sizeOf_spec]
  omega

/-- A tree with its children; what is reached through a field only is not walked. -/
def branching : Branching Node := ⟨children, sizeOf_children_lt⟩

theorem sizeOf_lt_of_mem_children {n c : Node} (h : c ∈ n.children) : sizeOf c < sizeOf n :=
  branching.sizeOf_lt_of_mem h

theorem sizeOf_lt_of_mem_apart {n c : Node} (h : c ∈ n.apart) : sizeOf c < sizeOf n := by
  have := List.sizeOf_lt_of_mem h
  cases n
  simp only [mk.sizeOf_spec] at *
  omega

theorem sizeOf_lt_of_child? {n c : Node} {field : String} (h : n.child? field = some c) :
    sizeOf c < sizeOf n := by
  unfold child? at h
  obtain ⟨slot, -, hs⟩ := Option.bind_eq_some_iff.1 h
  cases slot with
  | child i => exact sizeOf_lt_of_mem_children (List.mem_of_getElem? hs)
  | apart i => exact sizeOf_lt_of_mem_apart (List.mem_of_getElem? hs)

/-- All nodes of a tree in document order. -/
def walk (root : Node) : List Node := branching.walk root

/-- Whether a node declares names with `var`. -/
def isVarDeclaration (n : Node) : Bool :=
  n.kind == .declaration && n.label.keyword == some .kwVar

/-- The declarators of a declaration. -/
def declarators (n : Node) : List Node := n.children.filter (·.kind == .declarator)

end Node
end LetOrConst.Tree
