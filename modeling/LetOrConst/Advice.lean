/-
Advice on `var` declarations: `let` for one whose names are assigned again, `const` for the rest.
Whether a name is assigned again is decided either by the name alone, over the whole document, or
by resolving every assignment to the binding it reaches.
-/
import LetOrConst.Log
import LetOrConst.Scope.Build

namespace LetOrConst

open LetOrConst.Tree (Node)

/-- How assignments are matched to declarations. -/
inductive Resolution where
  /-- By the text of the name, anywhere in the document. -/
  | byName
  /-- By the binding that the name resolves to. -/
  | byScope
  deriving DecidableEq, Repr, Inhabited

namespace Resolution

/-- Both ways, in the order they are listed. -/
def all : List Resolution := [byName, byScope]

/-- The name of a way to match. -/
def name : Resolution → String
  | byName => "name"
  | byScope => "scope"

/-- The way with a given name. -/
def ofName? (s : String) : Option Resolution := all.find? (·.name == s)

/-- The complaint about a name that is none of them. -/
def unknownMessage (s : String) : String :=
  let known := String.intercalate ", " (all.map name)
  s!"Unknown resolution mode {Text.quoted s}; expected one of {known}"

end Resolution

namespace Advice

/-- What is advised in place of `var`. -/
inductive Verdict where
  | preferLet
  | preferConst
  deriving DecidableEq, Repr

/-- The kind of issue for a verdict. -/
def Verdict.kind : Verdict → String
  | preferLet => "prefer_let"
  | preferConst => "prefer_const"

/-- The advice in words. -/
def Verdict.message : Verdict → String
  | preferLet => "Consider using 'let' instead of 'var' here due to reassignment."
  | preferConst => "Consider using 'const' instead of 'var' here."

/-- The issue of a verdict on a declaration. -/
def Verdict.issue (v : Verdict) (declaration : Node) : Issue :=
  ⟨v.kind, declaration.line, declaration.column, v.message⟩

/-- The verdict for a declaration that is assigned again or not. -/
def Verdict.ofReassigned (again : Bool) : Verdict := if again then preferLet else preferConst

/-- What is known in the middle of a visit for `var` declarations. -/
structure Collected where
  /-- The declarations met so far, with their numbers among all nodes. -/
  declarations : List (Node × Nat) := []
  /-- How many nodes have been entered. -/
  entered : Nat := 0

/-- The visitor that collects `var` declarations. -/
def collector : Tree.Visitor Collected where
  enter n c :=
    let found := if n.isVarDeclaration then [(n, c.entered)] else []
    ({ declarations := c.declarations ++ found, entered := c.entered + 1 }, true)
  leave _ c := c

/-- The `var` declarations of a tree in document order, with their numbers among all nodes. -/
def varDeclarations (root : Node) : List (Node × Nat) := (collector.visit root {}).declarations

/-- The plain names that are assigned in the statements of a tree. -/
def assignedNames (root : Node) : List String :=
  (root.children.flatMap (·.walk)).filterMap (·.assignedName?)

/-- Issues when names are matched by their text. -/
def issuesByName (root : Node) : List Issue :=
  let assigned := assignedNames root
  (varDeclarations root).map fun (d, _) =>
    (Verdict.ofReassigned (d.declaredNames.any assigned.contains)).issue d

/-- Issues when assignments are resolved to bindings. The scopes are not looked at when there is
nothing to judge. -/
def issuesByScope (root : Node) : Except Scope.Fault (List Issue) :=
  match varDeclarations root with
  | [] => .ok []
  | declarations => do
    let again := (← Scope.reassigned root).map (·.index)
    return declarations.map fun (d, i) => (Verdict.ofReassigned (again.contains i)).issue d

/-- One issue for every `var` declaration, in document order. -/
def issues (resolution : Resolution) (root : Node) : Except Scope.Fault (List Issue) :=
  match resolution with
  | .byName => .ok (issuesByName root)
  | .byScope => issuesByScope root

/-! ## What is noted on the way -/

/-- Events while scopes are built. -/
def scopeEvents (root : Node) : List Log.Event :=
  root.walk.filterMap fun n =>
    if n.kind = .declaration ∧ n.label.keyword = none then some (.keywordMissing n.line) else none

/-- Events while declarations are judged. -/
def judgingEvents (resolution : Resolution) (root : Node) : List Log.Event :=
  match resolution with
  | .byName => (varDeclarations root).filterMap fun (d, _) =>
    if d.declaredNames.isEmpty then some (.noPlainNames d.line) else none
  | .byScope => if (varDeclarations root).isEmpty then [] else scopeEvents root

/-- Events while issues are found: first those of judging, then every issue. -/
def events (resolution : Resolution) (root : Node) : List Log.Event :=
  judgingEvents resolution root ++
    match issues resolution root with
    | .ok found => found.map .found
    | .error _ => []

end Advice
end LetOrConst
