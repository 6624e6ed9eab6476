/-
Declarations: of variables, of functions and of classes. A word that introduces one may also be a
plain name, so what follows it decides.
-/
import LetOrConst.JavaScript.Expression

namespace LetOrConst.JavaScript

open Grammar (Node)
open Reader

/-- The ways to declare. -/
inductive DeclarationForm where
  | variable
  | lexical (keyword : String)
  /-- A resource that is disposed of, possibly by waiting for it. -/
  | resource
  | function
  | classDef
  deriving DecidableEq, Repr

/-- Whether a target of a declaration follows a word, on the same line or on one that the statement
goes on to. -/
def targetFollows : Reader Bool := do
  let behind := (← get).behind
  let token := behind.token
  return (token.isName || token == .mark "[" || token == .mark braceOpen) &&
    !Semicolon.mayBeOmitted false behind.rest

/-- Whether a function that starts here has a name. -/
def functionIsNamed : Reader Bool := do
  let k ← get
  let keyword := if k.token == .word "async" then k.behind else k
  let behind := keyword.behind
  let name := if behind.token == .mark "*" then behind.behind else behind
  return name.token.isName

/-- Whether a function that starts with `async` starts here. -/
def atAsyncFunction : Reader Bool := do
  let behind := (← get).behind
  return (← look) = .word "async" && behind.token == .word "function" &&
    !Semicolon.mayBeOmitted false behind.rest

/-- The form of the declaration that starts here, if one does. Functions and classes without a name
are expressions. -/
def declarationForm? : Reader (Option DeclarationForm) := do
  match ← look with
  | .word "var" => return some .variable
  | .word "const" => return some (.lexical "const")
  | .word "let" => return if ← targetFollows then some (.lexical "let") else none
  | .word "using" => return some .resource
  | .word "await" => return if (← lookBehind) = .word "using" then some .resource else none
  | .word "function" => return if ← functionIsNamed then some .function else none
  | .word "async" =>
    return if (← atAsyncFunction) && (← functionIsNamed) then some .function else none
  | .word "class" => return if (← lookBehind).isName then some .classDef else none
  | .mark "@" => return some .classDef
  | _ => return none

/-- A target and possibly its initial value. -/
def declarator (rules : Rules) : Reader Node := node "variable_declarator" do
  let name ← field "name" (target rules)
  let value ← optional (accept (.mark "=")) (field "value" (rules (.expression .final)))
  return name :: value

/-- Declarators with commas between them, and the end of their statement. -/
def declarators (rules : Rules) : Reader (List Node) := do
  let first ← declarator rules
  let rest ← many (accept (.mark ",")) (declarator rules)
  let bare := (rest.getLast?.getD first).children.length = 1
  semicolon bare
  return first :: rest

/-- A declaration of the given form. -/
def declaration (rules : Rules) : DeclarationForm → Reader Node
  | .variable => node "variable_declaration" do
    next
    declarators rules
  | .lexical keyword => node "lexical_declaration" do
    let kind ← field "kind" (token keyword)
    return kind :: (← declarators rules)
  | .resource => node "using_declaration" do
    let _ ← accept (.word "await")
    keyword "using"
    declarators rules
  | .function => function rules true
  | .classDef => classNode rules true

end LetOrConst.JavaScript
