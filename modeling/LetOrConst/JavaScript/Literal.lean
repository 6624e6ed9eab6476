/-
Strings, templates and regular expressions: tokens with an inner structure. Inside them a gap is
text like any other.
-/
import LetOrConst.JavaScript.Rule

namespace LetOrConst.JavaScript

open Grammar (Node)
open Reader

/-- The length of the character written with a backslash at the start of a text, or zero. -/
def escapeLength : List Char → Nat
  | '\\' :: c :: rest =>
    if c = 'x' then
      if (rest.take 2).length = 2 ∧ (rest.take 2).all isHexDigit then 4 else 0
    else if c = 'u' then codeEscapeLength ('\\' :: c :: rest)
    else if '0' ≤ c ∧ c ≤ '7' then
      1 + (((c :: rest).take 3).takeWhile fun d => '0' ≤ d && d ≤ '7').length
    else if (c = '\r' ∨ c = '?') ∧ rest.head?.any isLineEnd then 3
    else 2
  | _ => 0

/-- A character written with a backslash. -/
def escape : Reader Node := do
  match escapeLength (← get).rest with
  | 0 => throw (← get)
  | n => run "escape_sequence" n

/-- Whether the next character satisfies a condition. -/
def nextIs (p : Char → Bool) : Reader Bool := return (← get).rest.head?.any p

/-! ## Strings -/

/-- A string, cut into runs of plain characters and escapes. It ends on its line. -/
def string : Reader Node := node "string" do
  match ← look with
  | .quote q =>
    next
    let parts ← many (nextIs fun c => c != q && c != '\n' && c != '\r') do
      if ← nextIs (· == '\\') then escape
      else
        let plain := (← get).rest.takeWhile fun c => c != q && c != '\\' && c != '\n' && c != '\r'
        run "string_fragment" plain.length
    unless ← nextIs (· == q) do throw (← get)
    next
    return parts
  | _ => fail

/-! ## Templates -/

/-- The length of the plain text at the start of a template. -/
def templateTextLength : List Char → Nat
  | [] => 0
  | '`' :: _ => 0
  | '\\' :: _ => 0
  | '$' :: '{' :: _ => 0
  | _ :: rest => templateTextLength rest + 1

/-- An expression in a template. -/
def substitution (rules : Rules) : Reader Node := node "template_substitution" do
  take 2
  let value ← rules (.expressions .bracketed)
  mark braceClose
  return [value]

/-- A part of a template. -/
def templatePart (rules : Rules) : Reader Node := do
  match (← get).rest with
  | '\\' :: _ => escape
  | '$' :: '{' :: _ => substitution rules
  | [] => throw (← get)
  | cs => run "string_fragment" (templateTextLength cs)

/-- A template. -/
def template (rules : Rules) : Reader Node := node "template_string" do
  mark "`"
  let parts ← many (return !(← nextIs (· == '`'))) (templatePart rules)
  next
  return parts

/-! ## Regular expressions -/

/-- The length of a pattern up to the slash that closes it; `inClass` tells whether a class of
characters is open, where a slash is one of them. -/
def patternLength? (inClass : Bool) : List Char → Option Nat
  | [] => none
  | '\n' :: _ => none
  | '\\' :: c :: rest =>
    if c = '\n' then none else (patternLength? inClass rest).map (· + 2)
  | '[' :: rest => (patternLength? true rest).map (· + 1)
  | ']' :: rest => (patternLength? false rest).map (· + 1)
  | '/' :: rest => if inClass then (patternLength? true rest).map (· + 1) else some 0
  | _ :: rest => (patternLength? inClass rest).map (· + 1)

/-- A regular expression. -/
def regex : Reader Node := node "regex" do
  take 1
  match patternLength? false (← get).rest with
  | none => throw (← get)
  | some 0 => throw (← get)
  | some n =>
    let pattern ← run "regex_pattern" n
    modify Cursor.next
    let flags := ((← get).rest.takeWhile fun c => 'a' ≤ c && c ≤ 'z').length
    if flags = 0 then return [pattern.inField "pattern"]
    return [pattern.inField "pattern", (← run "regex_flags" flags).inField "flags"]

end LetOrConst.JavaScript
