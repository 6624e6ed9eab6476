/-
Functions, objects and classes: all that has parameters and a body, or members that do.
-/
import LetOrConst.JavaScript.Literal
import LetOrConst.JavaScript.Pattern

namespace LetOrConst.JavaScript

open Grammar (Node)
open Reader

/-- An expression without a comma, between brackets. -/
def inner (rules : Rules) : Reader Node := rules (.expression .bracketed)

/-- An expression in parentheses. -/
def parenthesized (rules : Rules) : Reader Node := node "parenthesized_expression" do
  mark "("
  let value ← rules (.expressions .bracketed)
  mark ")"
  return [value]

/-- An expression, or a collection to be spread out. -/
def item (rules : Rules) : Reader Node := do
  if (← look) = .mark "..." then
    node "spread_element" do
      next
      return [← inner rules]
  else inner rules

/-! ## Parameters -/

/-- The items of slots none of which is empty. -/
def filled? : List (Option Node) → Option (List Node)
  | [] => some []
  | none :: _ => none
  | some n :: rest => (filled? rest).map (n :: ·)

/-- The parameters that slots in parentheses stand for. Only the last slot may be empty. -/
def toParameters? (slots : List (Option Node)) : Option (List Node) :=
  let slots := if slots.getLast?.any Option.isNone then slots.dropLast else slots
  (filled? slots).bind toElements?

/-- Slots in parentheses. -/
def parenthesizedSlots (rules : Rules) : Reader (List (Option Node)) := do
  mark "("
  commaSeparated ")" (item rules)

/-- The parameters of a function. -/
def parameters (rules : Rules) : Reader Node := node "formal_parameters" do
  ofOption (toParameters? (← parenthesizedSlots rules))

/-- The arguments of a call. -/
def arguments (rules : Rules) : Reader Node := node "arguments" do
  return (← parenthesizedSlots rules).reduceOption

/-- Parameters and body. -/
def signatureAndBody (rules : Rules) : Reader (List Node) := do
  let params ← field "parameters" (parameters rules)
  let body ← field "body" (rules .block)
  return [params, body]

/-- A function, as a declaration or as an expression. Only an expression can do without a name. -/
def function (rules : Rules) (declared : Bool) : Reader Node := do
  let start ← here
  let _ ← accept (.word "async")
  keyword "function"
  let generator ← accept (.mark "*")
  let name ← optional (return declared || (← look).isName) (field "name" name)
  let rest ← signatureAndBody rules
  let type := match generator, declared with
    | false, false => "function_expression"
    | false, true => "function_declaration"
    | true, false => "generator_function"
    | true, true => "generator_function_declaration"
  return start.nodeTo (← get) type (name ++ rest)

/-! ## Objects -/

/-- What stands for a property: a word, keyword or not, a private name, a string, a number or a
computed name. -/
def propertyName (rules : Rules) : Reader Node := do
  match ← look with
  | .word _ => leaf "property_identifier"
  | .hidden => leaf "private_property_identifier"
  | .quote _ => string
  | .number => leaf "number"
  | .mark "[" =>
    node "computed_property_name" do
      next
      let value ← inner rules
      mark "]"
      return [value]
  | _ => fail

/-- Whether a token can start the name of a property. -/
def startsPropertyName : Token → Bool
  | .word _ => true
  | .hidden => true
  | .quote _ => true
  | .number => true
  | .mark text => text == "["
  | _ => false

/-- Takes a word that says more about the member after it. It is the name of a property itself
unless a name follows, or a star behind `async`; and in a class, where a member may end with its
line, unless the name follows at once. -/
def modifier (text : String) (inClass : Bool) : Reader Bool := do
  let followed := match ← lookBehind with
    | .mark "*" => text == "async" || text == "static"
    | t => startsPropertyName t
  if (← look) = .word text && followed then
    let before ← get
    next
    if inClass && (← omitted true) then
      set before
      return false
    return true
  else
    return false

/-- Takes the words and the star before the name of a member, and tells whether there were any. -/
def modifiers (inClass : Bool) : Reader Bool := do
  let isStatic ← modifier "static" inClass
  let isAsync ← modifier "async" inClass
  let isGenerator ← accept (.mark "*")
  let isGetter ← if isGenerator then pure false else modifier "get" inClass
  let isSetter ← if isGenerator || isGetter then pure false else modifier "set" inClass
  return isStatic || isAsync || isGenerator || isGetter || isSetter

/-- A decorator: a name with members and arguments, or any expression in parentheses. -/
def decorator (rules : Rules) : Reader Node := node "decorator" do
  mark "@"
  if (← look) = .mark "(" then return [← parenthesized rules]
  let first ← name
  let path ← iterate (fun (n : Node) => do
    if ← accept (.mark ".") then
      let property ← match ← look with
        | .word _ => leaf "property_identifier"
        | _ => fail
      some <$> nodeFrom n "member_expression" [n.inField "object", property.inField "property"]
    else return none) first
  if (← look) = .mark "(" then
    let args ← arguments rules
    return [← nodeFrom path "call_expression"
      [path.inField "function", args.inField "arguments"]]
  return [path]

/-- The decorators before a class or a member. -/
def decorators (rules : Rules) : Reader (List Node) :=
  many (return (← look) = .mark "@") (field "decorator" (decorator rules))

/-- A member of an object. A default for a name is taken here because the object may turn out to be
a pattern. -/
def property (rules : Rules) : Reader Node := do
  if (← look) = .mark "..." then return ← item rules
  let start ← here
  let before ← decorators rules
  let modified ← modifiers false
  let token ← look
  let nameStart ← here
  let name ← propertyName rules
  match ← look with
  | .mark "(" =>
    let rest ← signatureAndBody rules
    return start.nodeTo (← get) "method_definition" (before ++ name.inField "name" :: rest)
  | .mark ":" =>
    if modified || !before.isEmpty then fail
    next
    let value ← inner rules
    return start.nodeTo (← get) "pair" [name.inField "key", value.inField "value"]
  | .mark "=" =>
    if modified || !token.isName || !before.isEmpty then fail
    let left := nameStart.nodeTo (← get) "shorthand_property_identifier_pattern" []
    next
    let value ← inner rules
    return start.nodeTo (← get) "object_assignment_pattern"
      [left.inField "left", value.inField "right"]
  | _ =>
    if modified || !token.isName || !before.isEmpty then fail
    return { name with type := "shorthand_property_identifier" }

/-- An object. -/
def object (rules : Rules) : Reader Node := node "object" do
  mark braceOpen
  return (← commaSeparated braceClose (property rules)).reduceOption

/-- An array. -/
def array (rules : Rules) : Reader Node := node "array" do
  mark "["
  return (← commaSeparated "]" (item rules)).reduceOption

/-- What a declaration introduces: a name or a pattern. -/
def target (rules : Rules) : Reader Node := do
  match ← look with
  | .mark "[" => ofOption (toPattern? (← array rules))
  | .mark braceOpen => ofOption (toPattern? (← object rules))
  | _ => name

/-! ## Classes -/

/-- A member of a class: a method, a field or a block of initial statements. -/
def classMember (rules : Rules) : Reader Node := do
  if (← look) = .word "static" && (← lookBehind) = .mark braceOpen then
    node "class_static_block" do
      next
      return [← field "body" (rules .block)]
  else
    let start ← here
    let before ← decorators rules
    let _ ← modifiers true
    let name ← propertyName rules
    if (← look) = .mark "(" then
      let rest ← signatureAndBody rules
      return start.nodeTo (← get) "method_definition" (before ++ name.inField "name" :: rest)
    else
      let name := name.inField "property"
      if ← accept (.mark "=") then
        let value ← field "value" (rules (.expression .final))
        let member := start.nodeTo (← get) "field_definition" (before ++ [name, value])
        semicolon
        return member
      else
        let member := start.nodeTo (← get) "field_definition" (before ++ [name])
        semicolon true
        return member

/-- The members of a class. -/
def classBody (rules : Rules) : Reader Node := node "class_body" do
  mark braceOpen
  let members ← many (notAt (.mark braceClose)) do
    if ← accept (.mark ";") then return none
    some <$> field "member" (classMember rules)
  mark braceClose
  return members.reduceOption

/-- A class behind its decorators, as a declaration or as an expression. Only an expression can do
without a name. -/
def classAfter (rules : Rules) (declared : Bool) (start : Cursor) (before : List Node) :
    Reader Node := do
  keyword "class"
  let name ← optional (return declared || (← look).isName) (field "name" name)
  let heritage ← optional (return (← look) = .word "extends") <| node "class_heritage" do
    next
    return [← inner rules]
  let body ← field "body" (classBody rules)
  return start.nodeTo (← get) (if declared then "class_declaration" else "class")
    (before ++ name ++ heritage ++ [body])

/-- A class with its decorators. -/
def classNode (rules : Rules) (declared : Bool) : Reader Node := do
  let start ← here
  let before ← decorators rules
  classAfter rules declared start before

end LetOrConst.JavaScript
