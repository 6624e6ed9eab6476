/-
The scopes of a tree, found on one visit. Programs, functions, blocks, loops and handlers open a
scope when they are entered and close it when they are left; declarations put their names into the
scope that fits their keyword; assignments to plain names are noted with the scope they happen in
and resolved only when all names are known, so that it does not matter what comes first.
-/
import LetOrConst.Scope.Store
import LetOrConst.Tree.Names
import LetOrConst.Tree.Visit

namespace LetOrConst.Scope

open LetOrConst.Tree (Node)

/-- A node seen on a visit: its number in document order, and where it starts. -/
structure Site where
  index : Nat
  line : Int
  column : Int
  deriving DecidableEq, Repr, Inhabited

/-- The one way in which scopes cannot be told: a node needs a scope and there is none open. -/
inductive Fault where
  | noScope
  deriving DecidableEq, Repr

/-- An assignment to a plain name, in the scope that was open, if any was. -/
structure Assignment where
  scope : Option Nat
  site : Site
  name : String
  deriving DecidableEq, Repr

/-- Names as the store keeps them; a function or class may be declared by a node without a name. -/
abbrev Name := Option String

/-- What is known in the middle of a visit. -/
structure Progress where
  store : Store Name Site := {}
  /-- The scope of the program seen last. -/
  root : Option Nat := none
  /-- The innermost open scope. -/
  current : Option Nat := none
  /-- Assignments in document order. -/
  assignments : List Assignment := []
  /-- How many nodes have been entered. -/
  entered : Nat := 0
  deriving Repr

namespace Progress

/-- The node about to be entered as a site. -/
def site (p : Progress) (n : Node) : Site := ⟨p.entered, n.line, n.column⟩

/-- The innermost open scope. -/
def here (p : Progress) : Except Fault Nat :=
  match p.current with
  | some id => .ok id
  | none => .error .noScope

/-- Opens a scope for a node. -/
def push (p : Progress) (kind : Kind) (n : Node) : Except Fault (Progress × Nat) := do
  let (store, id) := p.store.openChild (← p.here) kind (p.site n)
  return ({ p with store, current := some id }, id)

/-- Closes the innermost scope. -/
def pop (p : Progress) : Except Fault Progress := do
  return { p with current := p.store.parent? (← p.here) }

/-- Declares a name in a scope. -/
def declare (p : Progress) (id : Nat) (name : Name) (origin : Origin) : Progress :=
  { p with store := p.store.declare id name origin }

/-- Declares names in a scope. -/
def declareAll (p : Progress) (id : Nat) (names : List String) (origin : Origin)
    (site : Option Site := none) : Progress :=
  { p with store := p.store.declareAll id (names.map some) origin site }

end Progress

/-- The name that a function binds in the scope around it: that of a declared function. -/
def outerName? (n : Node) : Option Name :=
  if n.type = "function_declaration" ∨ n.type = "generator_function_declaration" then
    (n.child? "name").map (·.label.name)
  else none

/-- The name that a function binds in its own scope: that of a function in an expression. -/
def innerName? (n : Node) : Option Name :=
  if n.type = "function_expression" ∨ n.type = "function" ∨ n.type = "generator_function" then
    ((n.child? "name").filter (·.kind = .identifier)).map (·.label.name)
  else none

/-- The name that a class binds in the scope around it: that of a declared class. -/
def className? (n : Node) : Option Name :=
  if n.type = "class_declaration" then
    ((n.child? "name").filter (·.kind = .identifier)).map (·.label.name)
  else none

/-- The names that the parameters of a function bind. -/
def parameterNames (n : Node) : List String :=
  (match n.child? "parameters" with
    | some list => list.children.flatMap (·.bindingNames)
    | none => []) ++ n.namesUnder "parameter"

/-- Declares a name in the open scope, if there is one to declare. -/
def Progress.declareHere (p : Progress) (origin : Origin) : Option Name → Except Fault Progress
  | none => .ok p
  | some name => do return p.declare (← p.here) name origin

/-- Enters a function: a declared one binds its name in the scope around it, a named expression in
its own, and the parameters are bound in its own. -/
def enterFunction (n : Node) (p : Progress) : Except Fault Progress := do
  let (p, id) ← (← p.declareHere .function (outerName? n)).push .function n
  let p ← p.declareHere .function (innerName? n)
  return p.declareAll id (parameterNames n) .param

/-- Enters a class: a declared one binds its name in the open scope. -/
def enterClass (n : Node) (p : Progress) : Except Fault Progress :=
  p.declareHere .classDef (className? n)

/-- Enters a handler, which binds what it catches. -/
def enterCatch (n : Node) (p : Progress) : Except Fault Progress := do
  let (p, id) ← p.push .caught n
  return p.declareAll id (n.namesUnder "parameter") .caught

/-- Enters a declaration. Names declared with `var` go to the host of the open scope, others stay
in it; without a keyword nothing is declared. -/
def enterDeclaration (n : Node) (p : Progress) : Except Fault Progress := do
  match n.label.keyword with
  | none => return p
  | some .kwVar =>
    return p.declareAll (p.store.host (← p.here)) n.boundNames (.declared .kwVar) (p.site n)
  | some keyword =>
    if n.boundNames.isEmpty then return p
    return p.declareAll (← p.here) n.boundNames (.declared keyword) (p.site n)

/-- Enters an assignment. -/
def enterAssignment (n : Node) (p : Progress) : Progress :=
  match n.assignedName? with
  | some name => { p with assignments := p.assignments ++ [⟨p.current, p.site n, name⟩] }
  | none => p

/-- Enters a program, which starts afresh. -/
def enterProgram (n : Node) (p : Progress) : Progress :=
  let (store, id) := p.store.openRoot .program (p.site n)
  { p with store, root := some id, current := some id }

/-- Enters a node. -/
def enter (n : Node) (p : Progress) : Except Fault Progress := do
  let p ← match n.kind with
    | .program => pure (enterProgram n p)
    | .function => enterFunction n p
    | .classDef => enterClass n p
    | .block | .forLoop => (·.1) <$> p.push .block n
    | .catchClause => enterCatch n p
    | .declaration => enterDeclaration n p
    | .assignment => pure (enterAssignment n p)
    | _ => pure p
  return { p with entered := p.entered + 1 }

/-- Leaves a node. -/
def leave (n : Node) (p : Progress) : Except Fault Progress :=
  match n.kind with
  | .function | .block | .forLoop | .catchClause => p.pop
  | _ => .ok p

/-- The visitor that builds scopes. -/
def builder : Tree.Visitor (Except Fault Progress) where
  enter n p := (p.bind (enter n), true)
  leave n p := p.bind (leave n)

/-- The scopes and assignments of a tree. -/
def build (root : Node) : Except Fault Progress := builder.visit root (.ok {})

/-- The declarations that one assignment reaches: those of the binding its name resolves to. -/
def Progress.reached (p : Progress) (a : Assignment) : Except Fault (List Site) :=
  match a.scope with
  | none => .error .noScope
  | some id =>
    match p.store.resolve id (some a.name) with
    | some (_, b) => .ok b.declarations
    | none => .ok []

/-- The declarations of a tree whose binding is assigned somewhere, as often as they are reached. -/
def reassigned (root : Node) : Except Fault (List Site) := do
  let p ← build root
  return (← p.assignments.mapM p.reached).flatten

end LetOrConst.Scope
