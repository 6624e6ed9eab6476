/-
Markup between angle brackets that stands for an operand. It is read in full, although nothing is
made of it, so that a text with markup is told from a text that does not parse.
-/
import LetOrConst.JavaScript.Function

namespace LetOrConst.JavaScript

open Grammar (Node)
open Reader

/-- The length of a name of markup, which unlike other words may have hyphens after its first
letter. -/
def markupNameLength (cs : List Char) : Nat :=
  match wordLength cs with
  | 0 => 0
  | n => n + ((cs.drop n).takeWhile fun c => c == '-' || isWordChar c).length

/-- A name of markup that is no keyword. -/
def markupWord (type : String) : Reader Node := do
  if !(← look).isName then fail
  let k ← here
  set k
  run type (markupNameLength k.rest)

/-- A name, with a name space before it or members behind it. -/
def markupName : Reader Node := do
  let first ← markupWord "identifier"
  if (← look) = .mark ":" then
    next
    let second ← markupWord "identifier"
    nodeFrom first "jsx_namespace_name" [first, second]
  else
    iterate (fun (n : Node) => do
      if ← accept (.mark ".") then
        let property ← field "property" (leaf "property_identifier")
        some <$> nodeFrom n "member_expression" [n.inField "object", property]
      else return none) first

/-- Expressions in braces, possibly none. -/
def markupExpression (rules : Rules) : Reader Node := node "jsx_expression" do
  mark braceOpen
  let value ← optional (notAt (.mark braceClose)) do
    if (← look) = .mark "..." then item rules else rules (.expressions .bracketed)
  mark braceClose
  return value

/-- A string as the value of an attribute: it may go over lines and knows no backslash. -/
def markupString : Reader Node := node "string" do
  match ← look with
  | .quote q =>
    next
    let text := (← get).rest.takeWhile (· != q)
    let parts ← optional (return !text.isEmpty) (run "string_fragment" text.length)
    unless ← nextIs (· == q) do throw (← get)
    next
    return parts
  | _ => fail

/-- An attribute, or an expression in the place of one. -/
def markupAttribute (rules : Rules) : Reader Node := do
  if (← look) = .mark braceOpen then return ← markupExpression rules
  node "jsx_attribute" do
    let first ← markupWord "property_identifier"
    let name ← if ← accept (.mark ":") then
        nodeFrom first "jsx_namespace_name" [first, ← markupWord "identifier"]
      else pure first
    if ← accept (.mark "=") then
      let value ← match ← look with
        | .quote _ => markupString
        | .mark braceOpen => markupExpression rules
        | .mark "<" => rules .element
        | _ => fail
      return [name, value]
    return [name]

/-- Takes one character, after a gap. -/
def char (c : Char) : Reader Unit := do
  if (← here).rest.head? = some c then take 1 else fail

/-- Whether the next token starts with the given characters. -/
def ahead (text : List Char) : Reader Bool := return text.isPrefixOf (← here).rest

/-- A character of plain text. -/
def isMarkupText (c : Char) : Bool := !"<>\x7b\x7d&".toList.contains c

/-- The length of a character written by its name or code, or zero. -/
def referenceLength : List Char → Nat
  | '&' :: rest =>
    let body := rest.takeWhile fun c => c.isAlphanum || c == '#'
    if body ≠ [] ∧ (rest.drop body.length).head? = some ';' then body.length + 2 else 0
  | _ => 0

/-- A child of an element. -/
def markupChild (rules : Rules) : Reader Node := do
  let cs := (← get).rest
  match cs with
  | '{' :: _ => markupExpression rules
  | '<' :: _ => rules .element
  | '&' :: _ =>
    match referenceLength cs with
    | 0 => throw (← get)
    | n => run "html_character_reference" n
  | _ =>
    match (cs.takeWhile isMarkupText).length with
    | 0 => throw (← get)
    | n => run "jsx_text" n

/-- The name and attributes of an opening tag; without a name there are no attributes. -/
def tagParts (rules : Rules) : Reader (List Node) := do
  if ← ahead ['>'] then return []
  let name ← field "name" markupName
  let attributes ← many (return !(← ahead ['>']) && !(← ahead ['/']))
    (field "attribute" (markupAttribute rules))
  return name :: attributes

/-- Whether the text ahead closes an element. -/
def atClosingTag : Reader Bool := return "</".toList.isPrefixOf (← get).rest

/-- An element, from its opening to its closing tag, or without content. The names of the two tags
need not agree. -/
def element (rules : Rules) : Reader Node := do
  let start ← here
  char '<'
  let parts ← tagParts rules
  if ← ahead ['/'] then
    char '/'
    char '>'
    return start.nodeTo (← get) "jsx_self_closing_element" parts
  char '>'
  let opening := start.nodeTo (← get) "jsx_opening_element" parts
  let children ← many (return !(← atClosingTag)) (markupChild rules)
  let closing ← node "jsx_closing_element" do
    char '<'
    char '/'
    let name ← optional (return !(← ahead ['>'])) (field "name" markupName)
    char '>'
    return name
  return start.nodeTo (← get) "jsx_element"
    (opening.inField "open_tag" :: children ++ [closing.inField "close_tag"])

end LetOrConst.JavaScript
