/-
Imports and exports.
-/
import LetOrConst.JavaScript.Declaration

namespace LetOrConst.JavaScript

open Grammar (Node)
open Reader

/-- A name that a module gives to something: any name, a string, or the word for its main value. -/
def moduleName : Reader Node := do
  match ← look with
  | .quote _ => string
  | .word "default" => token "default"
  | _ => name

/-- The module that something comes from. -/
def source : Reader Node := field "source" string

/-- Specifiers in braces; a comma may follow the last one. -/
def specifiers (type : String) (specifier : Reader Node) : Reader Node := node type do
  mark braceOpen
  let slots ← commaSeparated braceClose specifier
  ofOption (filled? (if slots.getLast?.any Option.isNone then slots.dropLast else slots))

/-! ## Imports -/

/-- What is imported under which name. -/
def importSpecifier : Reader Node := node "import_specifier" do
  let imported ← field "name" moduleName
  if ← accept (.word "as") then return [imported, ← field "alias" name]
  if imported.type = "identifier" then return [imported] else fail

/-- A whole module under a name. -/
def namespaceImport : Reader Node := node "namespace_import" do
  mark "*"
  keyword "as"
  return [← name]

/-- All of a module, or some of it. -/
def importedMembers : Reader Node := do
  if (← look) = .mark "*" then namespaceImport else specifiers "named_imports" importSpecifier

/-- What an import makes known. -/
def importClause : Reader Node := node "import_clause" do
  if (← look).isName then
    let main ← name
    return main :: (← optional (accept (.mark ",")) importedMembers)
  else return [← importedMembers]

/-- Attributes of an import. -/
def importAttribute (rules : Rules) : Reader Node := node "import_attribute" do
  keyword "with"
  return [← object rules]

/-- An import. -/
def importStatement (rules : Rules) : Reader Node := node "import_statement" do
  keyword "import"
  let clause ← optional (return !(← look) matches .quote _) do
    let clause ← importClause
    keyword "from"
    return clause
  let origin ← source
  let attributes ← optional (return (← look) = .word "with" && !(← omitted true))
    (importAttribute rules)
  semicolon true
  return clause ++ origin :: attributes

/-! ## Exports -/

/-- What is exported under which name. -/
def exportSpecifier : Reader Node := node "export_specifier" do
  let exported ← field "name" moduleName
  return exported :: (← optional (accept (.word "as")) (field "alias" moduleName))

/-- The module that an export passes on, named on the same line. -/
def passedOn : Reader (List Node) :=
  optional (return (← look) = .word "from" && !(← omitted true)) do
    next
    source

/-- The value that a module stands for: a declaration or any expression. -/
def mainExport (rules : Rules) : Reader Node := do
  match ← declarationForm? with
  | some form => field "declaration" (declaration rules form)
  | none =>
    let value ← field "value" (rules (.expression .final))
    semicolon
    return value

/-- What is exported. -/
def exported (rules : Rules) : Reader (List Node) := do
  match ← look with
  | .mark "*" =>
    let space ← optional (return (← lookBehind) = .word "as") <| node "namespace_export" do
      next
      next
      return [← moduleName]
    if space.isEmpty then next
    keyword "from"
    let module ← source
    semicolon true
    return space ++ [module]
  | .mark braceOpen =>
    let clause ← specifiers "export_clause" exportSpecifier
    let module ← passedOn
    semicolon true
    return clause :: module
  | .word "default" =>
    next
    return [← mainExport rules]
  | _ =>
    match ← declarationForm? with
    | some form => return [← field "declaration" (declaration rules form)]
    | none => fail

/-- An export behind its decorators. -/
def exportAfter (rules : Rules) (start : Cursor) (before : List Node) : Reader Node := do
  keyword "export"
  let parts ← exported rules
  return start.nodeTo (← get) "export_statement" (before ++ parts)

end LetOrConst.JavaScript
