/-
Readers: they take what they expect from the text ahead, or fail at the place of the token that
they did not expect. Gaps before a token are skipped by whoever takes the token, so that the cursor
always stands right behind the last token taken.
-/
import LetOrConst.JavaScript.Semicolon
import LetOrConst.JavaScript.Token

namespace LetOrConst.JavaScript

open Grammar (Node)

/-- Gives a value and the place behind what was read, or the place of the offending token. -/
abbrev Reader := StateT Cursor (Except Cursor)

namespace Reader

/-- The place of the next token. -/
def here : Reader Cursor := return (← get).skipGap

/-- The next token. -/
def look : Reader Token := return (← get).token

/-- The token after the next one. -/
def lookBehind : Reader Token := return (← get).behind.token

/-- Fails at the next token. -/
def fail {α : Type} : Reader α := do throw (← here)

/-- Takes some characters from the next token on. -/
def take (n : Nat) : Reader Unit := do set ((← here).drop n)

/-- Takes the next token. -/
def next : Reader Unit := modify Cursor.behind

/-- Skips the gap, with the remarks that are allowed only where an operand or a statement is
about to start. -/
def settle : Reader Unit := modify (·.skipGap true)

/-- Whether the next token is the given one; if so, takes it. -/
def accept (t : Token) : Reader Bool := do
  if (← look) = t then
    next
    return true
  else
    return false

/-- Takes the given token or fails. -/
def expect (t : Token) : Reader Unit := do
  if !(← accept t) then fail

/-- Takes a mark or fails. -/
def mark (text : String) : Reader Unit := expect (.mark text)

/-- Takes a keyword or fails. -/
def keyword (text : String) : Reader Unit := expect (.word text)

/-- Tries the first reader and, where it fails, the second from the same place. Of two failures the
one further on counts. -/
def orElse {α : Type} (p q : Reader α) : Reader α := fun k =>
  match p k with
  | .ok r => .ok r
  | .error e =>
    match q k with
    | .ok r => .ok r
    | .error e' => .error (if e'.offset < e.offset then e else e')

/-- Whether the next token is another one than the given. -/
def notAt (t : Token) : Reader Bool := return (← look) ≠ t

/-- Reads items as long as there are more. The text ahead bounds their number. -/
def many {α : Type} (more : Reader Bool) (item : Reader α) : Reader (List α) := do
  loop (← get).rest.length.succ
where
  loop : Nat → Reader (List α)
    | 0 => fail
    | n + 1 => do
      if ← more then
        let x ← item
        return x :: (← loop n)
      else
        return []

/-- Reads an item where there is one. -/
def optional {α : Type} (present : Reader Bool) (item : Reader α) : Reader (List α) := do
  if ← present then return [← item] else return []

/-- Changes a value step by step as long as a step applies. The text ahead bounds the steps. -/
def iterate {α : Type} (step : α → Reader (Option α)) (a : α) : Reader α := do
  loop (← get).rest.length.succ a
where
  loop : Nat → α → Reader α
    | 0, _ => fail
    | n + 1, a => do
      match ← step a with
      | some b => loop n b
      | none => return a

/-- Reads the slots between commas up to a closing mark, and takes that mark. A slot may be empty,
so there is one slot more than there are commas. -/
def commaSeparated {α : Type} (close : String) (item : Reader α) : Reader (List (Option α)) := do
  let slot : Reader (Option α) := do
    let t ← look
    if t = .mark "," || t = .mark close then return none else some <$> item
  let first ← slot
  let rest ← many (accept (.mark ",")) slot
  mark close
  return first :: rest

/-! ## Nodes -/

/-- A node over the children that a reader gives, from its first token to its last. -/
def node (type : String) (children : Reader (List Node)) : Reader Node := do
  let start ← here
  let children ← children
  return start.nodeTo (← get) type children

/-- A node from the start of its first child on. -/
def nodeFrom (first : Node) (type : String) (children : List Node) : Reader Node := do
  let stop := (← get).offset
  return { type, point := first.point, span := ⟨first.span.start, stop⟩, children }

/-- The node that a reader gives, under a field. -/
def field (name : String) (n : Reader Node) : Reader Node := return (← n).inField name

/-- The next token as a node. -/
def leaf (type : String) : Reader Node := node type do
  next
  return []

/-- The next token as a node that is a mere token. -/
def token (type : String) : Reader Node := return { ← leaf type with named := false }

/-- The next characters as a node, whatever they are. -/
def run (type : String) (n : Nat) : Reader Node := do
  let start ← get
  set (start.drop n)
  return start.nodeTo (start.drop n) type []

/-- A name as a node of the given type. -/
def name (type : String := "identifier") : Reader Node := do
  if (← look).isName then leaf type else fail

/-! ## Semicolons -/

/-- Whether a semicolon may be left out here. -/
def omitted (restricted : Bool := false) : Reader Bool :=
  return Semicolon.mayBeOmitted restricted (← get).rest

/-- Takes a semicolon, which may have been left out. -/
def semicolon (restricted : Bool := false) : Reader Unit := do
  if !(← accept (.mark ";")) && !(← omitted restricted) then fail

end Reader
end LetOrConst.JavaScript
