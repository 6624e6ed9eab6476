/-
Statements.
-/
import LetOrConst.JavaScript.Module

namespace LetOrConst.JavaScript

open Grammar (Node)
open Reader

/-- Whether more statements come before a token. -/
def moreBefore (close : Token) : Reader Bool := do
  settle
  notAt close

/-- Statements in braces. -/
def block (rules : Rules) : Reader Node := node "statement_block" do
  mark braceOpen
  let body ← many (moreBefore (.mark braceClose)) (rules .statement)
  mark braceClose
  return body

/-- Expressions as a statement. -/
def expressionStatement (rules : Rules) : Reader Node := node "expression_statement" do
  let value ← rules (.expressions .final)
  semicolon
  return [value]

/-! ## Braces and names -/

/-- Whether an empty pair of braces here is an object, because what follows goes on with it. -/
def emptyObjectGoesOn : Reader Bool := do
  let behind := (← get).behind
  let token := behind.behind.token
  return behind.token == .mark braceClose && (token.onlyGoesOn || token == .mark "=")

/-- A brace at the start of a statement: an object where it can be one that has members, else a
block. -/
def braceStatement (rules : Rules) : Reader Node := do
  if ← mayOpenObject then orElse (resolved (expressionStatement rules)) (rules .block)
  else if ← emptyObjectGoesOn then expressionStatement rules
  else rules .block

/-- A declaration, unless what follows it goes on with an expression that merely starts like
one. -/
def declarationStatement (rules : Rules) (form : DeclarationForm) : Reader Node := do
  let start ← get
  let n ← declaration rules form
  if (form = .function || form = .classDef) && (← look).onlyGoesOn then
    set start
    expressionStatement rules
  else return n

/-- What starts with decorators: a class or the export of one. -/
def decoratedStatement (rules : Rules) : Reader Node := do
  let start ← here
  let before ← decorators rules
  match ← look with
  | .word "export" => exportAfter rules start before
  | _ =>
    if (← lookBehind).isName then classAfter rules true start before
    else
      set start
      expressionStatement rules

/-- Whether a label starts here. -/
def atLabel : Reader Bool := do
  match ← look with
  | .word text =>
    let taken := ["yield", "await", "undefined", "using"].contains text
    return !isReserved text && !taken && (← lookBehind) = .mark ":"
  | _ => return false

/-- A statement with a label. -/
def labeledStatement (rules : Rules) : Reader Node := node "labeled_statement" do
  let label ← field "label" (name "statement_identifier")
  mark ":"
  return [label, ← field "body" (rules .statement)]

/-! ## Branches -/

/-- An expression in parentheses, under a field. -/
def condition (rules : Rules) (fieldName : String := "condition") : Reader Node :=
  field fieldName (parenthesized rules)

/-- A statement under the field for bodies. -/
def body (rules : Rules) : Reader Node := field "body" (rules .statement)

/-- A choice between statements. -/
def ifStatement (rules : Rules) : Reader Node := node "if_statement" do
  keyword "if"
  let test ← condition rules
  let yes ← field "consequence" (rules .statement)
  let no ← optional (return (← look) = .word "else") <| field "alternative" <|
    node "else_clause" do
      next
      return [← rules .statement]
  return test :: yes :: no

/-- The statements of a case. -/
def caseBody (rules : Rules) : Reader (List Node) :=
  many (do
    settle
    let t ← look
    return t ≠ .word "case" && t ≠ .word "default" && t ≠ .mark braceClose) (body rules)

/-- A case of a switch. -/
def switchCase (rules : Rules) : Reader Node := do
  if (← look) = .word "default" then
    node "switch_default" do
      next
      mark ":"
      caseBody rules
  else
    node "switch_case" do
      keyword "case"
      let value ← field "value" (rules (.expressions .bracketed))
      mark ":"
      return value :: (← caseBody rules)

/-- A choice between cases. -/
def switchStatement (rules : Rules) : Reader Node := node "switch_statement" do
  keyword "switch"
  let value ← condition rules "value"
  let cases ← field "body" <| node "switch_body" do
    mark braceOpen
    let cases ← many (notAt (.mark braceClose)) (switchCase rules)
    mark braceClose
    return cases
  return [value, cases]

/-- A handler of errors. -/
def catchClause (rules : Rules) : Reader Node := node "catch_clause" do
  keyword "catch"
  let parameter ← optional (accept (.mark "(")) do
    let n ← field "parameter" (target rules)
    mark ")"
    return n
  return parameter ++ [← field "body" (rules .block)]

/-- A block with handlers, both of which may be missing. -/
def tryStatement (rules : Rules) : Reader Node := node "try_statement" do
  keyword "try"
  let tried ← field "body" (rules .block)
  let handler ← optional (return (← look) = .word "catch") (field "handler" (catchClause rules))
  let finalizer ← optional (return (← look) = .word "finally") <| field "finalizer" <|
    node "finally_clause" do
      next
      return [← field "body" (rules .block)]
  return tried :: handler ++ finalizer

/-! ## Loops -/

/-- An expression that a loop may assign to. -/
def loopPlace (rules : Rules) : Reader Node := do
  settle
  let ctx : Context := { inOperator := false }
  let n ← iterate (behindOperand rules ctx true) (← primary rules ctx)
  if n.type = "parenthesized_expression" then return n else ofOption (toPattern? n)

/-- What a loop over a collection gives its members to: a new variable behind its keyword, or
anything that can be assigned to. A variable may have a value from the start. -/
def loopTarget (rules : Rules) : Reader (List Node) := do
  match ← look with
  | .word "var" =>
    let kind ← field "kind" (token "var")
    let left ← field "left" (target rules)
    let value ← optional (accept (.mark "=")) <| field "value" <|
      rules (.expression { inOperator := false })
    return kind :: left :: value
  | .word text =>
    if ["let", "const", "using"].contains text && (← targetFollows) &&
        (← lookBehind) ≠ .word "of" then
      let kind ← field "kind" (token text)
      return [kind, ← field "left" (target rules)]
    else return [← field "left" (loopPlace rules)]
  | _ => return [← field "left" (loopPlace rules)]

/-- The head of a loop over a collection. -/
def collectionHead (rules : Rules) : Reader (List Node) := do
  mark "("
  let left ← loopTarget rules
  let relation ← match ← look with
    | .word "in" => field "operator" (token "in")
    | .word "of" => field "operator" (token "of")
    | _ => fail
  let right ← field "right" (rules (.expressions .bracketed))
  mark ")"
  return left ++ [relation, right]

/-- An empty statement. -/
def emptyStatement : Reader Node := node "empty_statement" do
  mark ";"
  return []

/-- Expressions up to a semicolon. -/
def expressionsEnded (rules : Rules) : Reader Node := do
  if (← look) = .mark ";" then emptyStatement
  else
    let value ← rules (.expressions .bracketed)
    mark ";"
    return value

/-- The head of a loop with a start, a condition and a step. -/
def steppedHead (rules : Rules) : Reader (List Node) := do
  mark "("
  let initializer ← match ← declarationForm? with
    | some .variable => declaration rules .variable
    | some (.lexical keyword) => declaration rules (.lexical keyword)
    | _ => expressionsEnded rules
  let test ← field "condition" (expressionsEnded rules)
  let increment ← optional (notAt (.mark ")")) <| field "increment" <|
    rules (.expressions .bracketed)
  mark ")"
  return initializer.inField "initializer" :: test :: increment

/-- A loop with a head. -/
def forStatement (rules : Rules) : Reader Node := do
  let start ← here
  keyword "for"
  let waits ← accept (.word "await")
  let overCollection : Reader (String × List Node) :=
    return ("for_in_statement", ← collectionHead rules)
  let (type, head) ← if waits then overCollection
    else orElse overCollection (return ("for_statement", ← steppedHead rules))
  let repeated ← body rules
  return start.nodeTo (← get) type (head ++ [repeated])

/-- A loop with its condition before its body. -/
def whileStatement (rules : Rules) : Reader Node := node "while_statement" do
  keyword "while"
  let test ← condition rules
  return [test, ← body rules]

/-- A loop with its condition behind its body. No semicolon is needed behind it. -/
def doStatement (rules : Rules) : Reader Node := node "do_statement" do
  keyword "do"
  let repeated ← body rules
  keyword "while"
  let test ← condition rules
  let _ ← accept (.mark ";")
  return [repeated, test]

/-- A block in which the members of an object are known. -/
def withStatement (rules : Rules) : Reader Node := node "with_statement" do
  keyword "with"
  let object ← condition rules "object"
  return [object, ← body rules]

/-! ## Jumps -/

/-- Takes the end of a statement that may end right behind its keyword, or reads what belongs to
it. -/
def unlessEnded (rest : Reader (List Node)) : Reader (List Node) := do
  if ← accept (.mark ";") then return []
  if ← omitted true then return []
  rest

/-- A statement of a keyword and possibly a label. -/
def jump (type : String) : Reader Node := node type do
  next
  unlessEnded do
    let label ← field "label" (name "statement_identifier")
    semicolon true
    return [label]

/-- The end of a function. -/
def returnStatement (rules : Rules) : Reader Node := node "return_statement" do
  next
  unlessEnded do
    let value ← rules (.expressions .final)
    semicolon
    return [value]

/-- The raising of an error. -/
def throwStatement (rules : Rules) : Reader Node := node "throw_statement" do
  next
  let value ← rules (.expressions .final)
  semicolon
  return [value]

/-- A stop for a debugger. -/
def debuggerStatement : Reader Node := node "debugger_statement" do
  next
  semicolon true
  return []

/-! ## Statements -/

/-- What starts with a word that introduces no declaration. -/
def wordStatement (rules : Rules) (text : String) : Reader Node := do
  match text with
  | "if" => ifStatement rules
  | "for" => forStatement rules
  | "while" => whileStatement rules
  | "do" => doStatement rules
  | "switch" => switchStatement rules
  | "try" => tryStatement rules
  | "with" => withStatement rules
  | "return" => returnStatement rules
  | "throw" => throwStatement rules
  | "break" => jump "break_statement"
  | "continue" => jump "continue_statement"
  | "debugger" => debuggerStatement
  | "export" => exportAfter rules (← here) []
  | "import" =>
    match ← lookBehind with
    | .mark "(" => expressionStatement rules
    | .mark "." => expressionStatement rules
    | _ => importStatement rules
  | _ => if ← atLabel then labeledStatement rules else expressionStatement rules

/-- A statement. -/
def statement (rules : Rules) : Reader Node := do
  settle
  match ← look with
  | .mark ";" => emptyStatement
  | .mark braceOpen => braceStatement rules
  | .mark "@" => decoratedStatement rules
  | .word text =>
    match ← declarationForm? with
    | some form => declarationStatement rules form
    | none => wordStatement rules text
  | _ => expressionStatement rules

end LetOrConst.JavaScript
