/-
Expressions. An operand is read with all that stands at it: calls, members, and an assignment when
it can be assigned to, whatever operator came before it. Operands are then joined by level.
-/
import LetOrConst.JavaScript.Markup

namespace LetOrConst.JavaScript

open Grammar (Node)
open Reader

/-! ## Arrow functions -/

/-- How many characters there are up to and with the bracket that closes the open one. `quote?` is
the quote of the string that is open, and `depth` more brackets are. -/
def closingBracket? (quote? : Option Char) (depth : Nat) : List Char → Option Nat
  | [] => none
  | '\\' :: _ :: rest => (closingBracket? quote? depth rest).map (· + 2)
  | c :: rest =>
    if quote?.isSome then
      (closingBracket? (if quote? = some c then none else quote?) depth rest).map (· + 1)
    else if "'\"`".toList.contains c then (closingBracket? (some c) depth rest).map (· + 1)
    else if "([\x7b".toList.contains c then (closingBracket? none (depth + 1) rest).map (· + 1)
    else if ")]\x7d".toList.contains c then
      if depth = 0 then some 1 else (closingBracket? none (depth - 1) rest).map (· + 1)
    else (closingBracket? none depth rest).map (· + 1)

/-- Whether a name of a member that ends at this place is followed by what makes it one: a colon, or
parentheses and a brace. -/
def memberGoesOn (k : Cursor) : Bool :=
  match k.token with
  | .mark ":" => true
  | .mark "(" =>
    match closingBracket? none 0 k.behind.rest with
    | some n =>
      let closed := k.behind.drop n
      closed.token == .mark braceOpen && !Semicolon.mayBeOmitted false closed.rest
    | none => false
  | _ => false

/-- Whether a member of an object starts at this place, as far as one can tell from its name.
`words` bounds the number of words before the name. -/
def memberStarts (words : Nat) (k : Cursor) : Bool :=
  match k.token with
  | .mark "..." => true
  | .mark "*" => true
  | .mark "[" =>
    match closingBracket? none 0 k.behind.rest with
    | some n => memberGoesOn (k.behind.drop n)
    | none => false
  | .number => memberGoesOn k.behind
  | .quote q =>
    let text := k.behind.rest.takeWhile fun c => c != q && c != '\n'
    memberGoesOn (k.behind.drop (text.length + 1))
  | .word text =>
    memberGoesOn k.behind ||
      match words with
      | 0 => false
      | words + 1 =>
        ["get", "set", "async", "static"].contains text &&
          !(text == "async" && k.behind.token == .word "function") &&
          memberStarts words k.behind
  | _ => false

/-- Whether a brace opens what may be an object where statements are expected too. -/
def mayOpenObject : Reader Bool := return memberStarts 3 (← get).behind

/-- Takes a node whose patterns were all recognised, or fails. -/
def resolved (n : Reader Node) : Reader Node := do
  let start ← here
  let n ← n
  if patternsResolved n then return n else throw start

/-- The body of an arrow function: a block or an expression. -/
def arrowBody (rules : Rules) (ctx : Context) : Reader Node := do
  if (← look) = .mark braceOpen then
    if ← mayOpenObject then orElse (resolved (rules (.expression ctx))) (rules .block)
    else rules .block
  else rules (.expression ctx)

/-- The arrow and the body of an arrow function that starts with its parameters. -/
def arrowAfter (rules : Rules) (ctx : Context) (start : Cursor) (params : Node) : Reader Node := do
  mark "=>"
  let body ← field "body" (arrowBody rules ctx)
  return start.nodeTo (← get) "arrow_function" [params, body]

/-- A name, which may be the parameter of an arrow function. -/
def nameOrArrow (rules : Rules) (ctx : Context) : Reader Node := do
  let start ← here
  let n ← name
  if (← look) = .mark "=>" then arrowAfter rules ctx start (n.inField "parameter") else return n

/-- Several expressions as one. -/
def sequence? : List Node → Option Node
  | [] => none
  | [n] => some n
  | first :: rest =>
    let stop := ((first :: rest).getLast?.map (·.span.stop)).getD first.span.stop
    some { type := "sequence_expression", point := first.point
           span := ⟨first.span.start, stop⟩, children := first :: rest }

/-- The expression that slots in parentheses stand for. -/
def toExpression? (slots : List (Option Node)) : Option Node :=
  ((filled? slots).filter fun ns => ns.all (·.type != "spread_element")).bind sequence?

/-- Parentheses: around an expression, or around the parameters of an arrow function. -/
def parenthesesOrArrow (rules : Rules) (ctx : Context) : Reader Node := do
  let start ← here
  let slots ← parenthesizedSlots rules
  let stop ← get
  if (← look) = .mark "=>" then
    let params := start.nodeTo stop "formal_parameters" (← ofOption (toParameters? slots))
    arrowAfter rules ctx start (params.inField "parameters")
  else
    return start.nodeTo stop "parenthesized_expression" [← ofOption (toExpression? slots)]

/-- What starts with the word `async`: a function, an arrow function, or the name itself. -/
def asyncOrName (rules : Rules) (ctx : Context) : Reader Node := do
  let start ← here
  let n ← name
  let ended ← if ctx.mayEnd then omitted else pure false
  match ← look, ended with
  | .word "function", false =>
    set start
    function rules false
  | .word text, false =>
    if !isReserved text && (← lookBehind) = .mark "=>" then
      let param ← field "parameter" name
      arrowAfter rules ctx start param
    else return n
  | .mark "(", _ =>
    let paren ← here
    let slots ← parenthesizedSlots rules
    let stop ← get
    if (← look) = .mark "=>" then
      let params := paren.nodeTo stop "formal_parameters" (← ofOption (toParameters? slots))
      arrowAfter rules ctx start (params.inField "parameters")
    else
      let args := paren.nodeTo stop "arguments" slots.reduceOption
      nodeFrom n "call_expression" [n.inField "function", args.inField "arguments"]
  | .mark "=>", _ => arrowAfter rules ctx start (n.inField "parameter")
  | _, _ => return n

/-! ## Operands -/

/-- What starts with the word `import` in an expression. -/
def importOperand : Reader Node := do
  let start ← here
  let word ← leaf "import"
  match ← look with
  | .mark "(" => return word
  | .mark "." =>
    if (← lookBehind) = .word "meta" then
      next
      next
      return start.nodeTo (← get) "meta_property" []
    return word
  | _ => fail

/-- A private name, which can only be looked for in an object. -/
def privateOperand : Reader Node := do
  let n ← leaf "private_property_identifier"
  if (← look) = .word "in" then return n else fail

/-- An operand before anything that stands behind it. -/
def primary (rules : Rules) (ctx : Context) : Reader Node := do
  match ← look with
  | .number => leaf "number"
  | .quote _ => string
  | .hidden => privateOperand
  | .mark "`" => template rules
  | .mark "(" => parenthesesOrArrow rules ctx
  | .mark "[" => array rules
  | .mark braceOpen => object rules
  | .mark "/" => regex
  | .mark "/=" => regex
  | .mark "@" => classNode rules false
  | .word "class" => classNode rules false
  | .word "function" => function rules false
  | .word "async" => asyncOrName rules ctx
  | .word "new" => rules (.creation ctx)
  | .word "import" => importOperand
  | .word "await" => fail
  | .word "yield" => fail
  | .word text =>
    if ["super", "this", "true", "false", "null", "undefined"].contains text then leaf text
    else nameOrArrow rules ctx
  | _ => fail

/-- The name behind a dot. -/
def memberName : Reader Node := do
  match ← look with
  | .word _ => leaf "property_identifier"
  | .hidden => leaf "private_property_identifier"
  | _ => fail

/-- An index in brackets. -/
def index (rules : Rules) : Reader Node := do
  mark "["
  let value ← rules (.expressions .bracketed)
  mark "]"
  return value

/-- One thing that stands behind an operand, if any: a member, an index, arguments, a template or a
step. Without `calls` there are no arguments. -/
def behindOperand (rules : Rules) (ctx : Context) (calls : Bool) (n : Node) :
    Reader (Option Node) := do
  match ← look with
  | .mark "." =>
    next
    let property ← field "property" memberName
    some <$> nodeFrom n "member_expression" [n.inField "object", property]
  | .mark "?." =>
    let chain ← field "optional_chain" (leaf "optional_chain")
    match ← look with
    | .mark "(" =>
      let args ← field "arguments" (arguments rules)
      some <$> nodeFrom n "call_expression" [n.inField "function", chain, args]
    | .mark "[" =>
      let value ← field "index" (index rules)
      some <$> nodeFrom n "subscript_expression" [n.inField "object", chain, value]
    | _ =>
      let property ← field "property" memberName
      some <$> nodeFrom n "member_expression" [n.inField "object", chain, property]
  | .mark "[" =>
    let value ← field "index" (index rules)
    some <$> nodeFrom n "subscript_expression" [n.inField "object", value]
  | .mark "(" =>
    if !calls then return none
    let args ← field "arguments" (arguments rules)
    some <$> nodeFrom n "call_expression" [n.inField "function", args]
  | .mark "`" =>
    let args ← field "arguments" (template rules)
    some <$> nodeFrom n "call_expression" [n.inField "function", args]
  | .mark text =>
    if !calls || !(text == "++" || text == "--") then return none
    if ctx.mayEnd && (← omitted) then return none
    next
    some <$> nodeFrom n "update_expression" [n.inField "argument"]
  | _ => return none

/-- Signs of an assignment that works on the old value. -/
def augmentedSigns : List String :=
  ["+=", "-=", "*=", "/=", "%=", "**=", "<<=", ">>=", ">>>=", "&=", "|=", "^=", "&&=", "||=", "??="]

/-- Whether the old value of an operand can be worked on. -/
def isAugmentable (n : Node) : Bool :=
  ["identifier", "member_expression", "subscript_expression", "parenthesized_expression"].contains
    n.type

/-- The assignment to an operand, if there is one. -/
def assigned (rules : Rules) (ctx : Context) (n : Node) : Reader Node := do
  match ← look with
  | .mark "=" =>
    let left ← if n.type = "parenthesized_expression" then pure n else ofOption (toPattern? n)
    next
    let right ← field "right" (rules (.expression ctx))
    nodeFrom n "assignment_expression" [left.inField "left", right]
  | .mark text =>
    if augmentedSigns.contains text && isAugmentable n then
      let sign ← field "operator" (token text)
      let right ← field "right" (rules (.expression ctx))
      nodeFrom n "augmented_assignment_expression" [n.inField "left", sign, right]
    else return n
  | _ => return n

/-- Whether an arrow function ends with an expression, which has taken all that could stand
behind it. -/
def endsWithExpression (n : Node) : Bool :=
  n.type == "arrow_function" && n.children.getLast?.any (·.type != "statement_block")

/-- All that stands behind an operand. -/
def completed (rules : Rules) (ctx : Context) (n : Node) : Reader Node := do
  if endsWithExpression n then return n
  assigned rules ctx (← iterate (behindOperand rules ctx true) n)

/-- A value handed out of a generator, with or without an expression. -/
def yielded (rules : Rules) (ctx : Context) : Reader Node := node "yield_expression" do
  next
  if ← accept (.mark "*") then return [← rules (.expression ctx)]
  let ended ← if ctx.mayEnd then omitted else pure false
  optional (return !ended && (← look).startsExpression) (rules (.expression ctx))

/-- An operator before an operand. -/
def prefixed (rules : Rules) (ctx : Context) (type : String) : Reader Node := node type do
  next
  return [← field "argument" (rules (.operand ctx))]

/-- An operand with the operators that stand at it. -/
def operand (rules : Rules) (ctx : Context) : Reader Node := do
  settle
  match ← look with
  | .mark "++" => prefixed rules ctx "update_expression"
  | .mark "--" => prefixed rules ctx "update_expression"
  | .mark "<" => completed rules ctx (← rules .element)
  | .mark text =>
    if ["!", "~", "+", "-"].contains text then prefixed rules ctx "unary_expression"
    else completed rules ctx (← primary rules ctx)
  | .word "await" =>
    node "await_expression" do
      next
      return [← rules (.operand ctx)]
  | .word "yield" => yielded rules ctx
  | .word text =>
    if ["typeof", "void", "delete"].contains text then prefixed rules ctx "unary_expression"
    else completed rules ctx (← primary rules ctx)
  | _ => completed rules ctx (← primary rules ctx)

/-- The creation of an object: arguments belong to it, and members to what is created. -/
def creation (rules : Rules) (ctx : Context) : Reader Node := do
  let start ← here
  keyword "new"
  if (← look) = .mark "." then
    next
    keyword "target"
    return start.nodeTo (← get) "meta_property" []
  settle
  let constructor ← iterate (behindOperand rules ctx false) (← primary rules ctx)
  let args ← optional (return (← look) = .mark "(") (field "arguments" (arguments rules))
  return start.nodeTo (← get) "new_expression" (constructor.inField "constructor" :: args)

/-! ## Operators -/

/-- How strongly an operator between operands binds. -/
def levelOf? (ctx : Context) : Token → Option Nat
  | .mark text =>
    match text with
    | "??" => some 1
    | "||" => some 2
    | "&&" => some 3
    | "|" => some 4
    | "^" => some 5
    | "&" => some 6
    | "==" => some 7
    | "!=" => some 7
    | "===" => some 7
    | "!==" => some 7
    | "<" => some 8
    | ">" => some 8
    | "<=" => some 8
    | ">=" => some 8
    | "<<" => some 9
    | ">>" => some 9
    | ">>>" => some 9
    | "+" => some 10
    | "-" => some 10
    | "*" => some 11
    | "/" => some 11
    | "%" => some 11
    | "**" => some 12
    | _ => none
  | .word "in" => if ctx.inOperator then some 8 else none
  | .word "instanceof" => some 8
  | _ => none

/-- The level from which the right side of an operator is read: one above its own, except that
powers group to the right. -/
def rightLevel (level : Nat) : Nat := if level = 12 then level else level + 1

/-- A choice between two expressions, of the same level as the operators that bind least. -/
def choice (rules : Rules) (ctx : Context) (condition : Node) : Reader Node := do
  mark "?"
  let yes ← field "consequence" (rules (.expression .bracketed))
  mark ":"
  let no ← field "alternative" (rules (.expression ctx))
  nodeFrom condition "ternary_expression" [condition.inField "condition", yes, no]

/-- One operator of at least the given level behind a left side, with its right side. -/
def joined (rules : Rules) (level : Nat) (ctx : Context) (left : Node) : Reader (Option Node) := do
  match levelOf? ctx (← look) with
  | some l =>
    if l < level then return none
    next
    let right ← field "right" (rules (.binary (rightLevel l) ctx))
    some <$> nodeFrom left "binary_expression" [left.inField "left", right]
  | none =>
    if level ≤ lowestLevel && (← look) = .mark "?" then some <$> choice rules ctx left
    else return none

/-- Operands joined by operators of at least the given level. -/
def binary (rules : Rules) (level : Nat) (ctx : Context) : Reader Node := do
  iterate (joined rules level ctx) (← operand rules ctx)

/-- Expressions with commas between them. -/
def expressions (rules : Rules) (ctx : Context) : Reader Node := do
  let first ← rules (.expression ctx)
  let rest ← many (return (← look) = .mark ",") do
    next
    rules (.expression ctx)
  ofOption (sequence? (first :: rest))

end LetOrConst.JavaScript
