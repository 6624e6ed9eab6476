/-
Whole programs. Every text has a tree: where it does not parse, the tree shows the token at which
reading stopped as an error.

This grammar is a stand-in for the tree-sitter parser that documents are read with. For a text that
parses it is meant to give the same tree. It does not recover from faults as that parser does: it
stops at the first one, so it never gives a missing node, and of a text that does not parse it says
where and why in its own way. Nothing is proved about it, and nothing rests on it: every result on
documents takes the grammar as a parameter.
-/
import LetOrConst.JavaScript.Statement

namespace LetOrConst.JavaScript

open Grammar (Node)
open Reader

/-- The readers of all rules, nested at most as deeply as the bound says. -/
def rulesWithin : Nat → Rules
  | 0, _ => fail
  | depth + 1, rule =>
    let rules := rulesWithin depth
    match rule with
    | .statement => statement rules
    | .block => block rules
    | .expressions ctx => expressions rules ctx
    | .binary level ctx => binary rules level ctx
    | .operand ctx => operand rules ctx
    | .creation ctx => creation rules ctx
    | .element => element rules

/-- How deeply rules can be nested in a text: only a few lie between two of its characters. -/
def depthBound (cs : List Char) : Nat := 8 * cs.length + 16

/-- The line at the start of a script that names its interpreter. -/
def interpreterLine : Reader (List Node) := do
  settle
  let cs := (← get).rest
  optional (return "#!".toList.isPrefixOf cs) <|
    run "hash_bang_line" (cs.takeWhile (· != '\n')).length

/-- The statements of a program. -/
def statements (rules : Rules) : Reader (List Node) := do
  let first ← interpreterLine
  let rest ← many (moreBefore .finish) (rules .statement)
  return first ++ rest

/-- The place where a program starts: behind white space, but before a remark. -/
def firstPlace (k : Cursor) : Cursor := k.drop (k.rest.takeWhile isSpace).length

/-- The length of the token that is shown as an error. -/
def errorLength (cs : List Char) : Nat := (Token.ofChars cs).lengthIn cs

/-- The tree of a text that stops making sense at a place. -/
def faultyProgram (start place : Cursor) : Node :=
  let stop := place.drop (errorLength place.rest)
  start.nodeTo stop "program" [place.nodeTo stop "ERROR" []]

/-- The tree of a text. -/
def grammar (text : String) : Node :=
  let k := Cursor.ofText text
  let start := firstPlace k
  match statements (rulesWithin (depthBound k.rest)) k with
  | .error place => faultyProgram start place
  | .ok (children, stop) =>
    let program := start.nodeTo stop "program" children
    if patternsResolved program then program else faultyProgram start stop

end LetOrConst.JavaScript
