/-
Values in the form of JSON, written over several lines: two blanks of indentation for every level,
one member or element a line, nothing between the brackets of what is empty, and plain ASCII only,
other characters being written as escapes of their UTF-16 units.
-/
import LetOrConst.Text.Quoted

namespace LetOrConst.Report

/-- A value. Members keep their order. -/
inductive Json where
  | null
  | int (n : Int)
  | str (s : String)
  | arr (elements : List Json)
  | obj (members : List (String × Json))
  deriving Repr, Inhabited

namespace Json

/-- The escape of one UTF-16 unit. -/
def escapeUnit (n : Nat) : List Char := '\\' :: 'u' :: Text.hexDigits 4 n

/-- A character inside a string. -/
def escapeChar (c : Char) : List Char :=
  if c = '"' then ['\\', '"']
  else if c = '\\' then ['\\', '\\']
  else if c = '\n' then ['\\', 'n']
  else if c = '\r' then ['\\', 'r']
  else if c = '\t' then ['\\', 't']
  else if c.toNat = 8 then ['\\', 'b']
  else if c.toNat = 12 then ['\\', 'f']
  else if 32 ≤ c.toNat ∧ c.toNat < 127 then [c]
  else if c.toNat < 0x10000 then escapeUnit c.toNat
  else
    escapeUnit (0xd800 + (c.toNat - 0x10000) / 0x400) ++
      escapeUnit (0xdc00 + (c.toNat - 0x10000) % 0x400)

/-- A string with its quotes. -/
def renderString (s : String) : List Char := '"' :: (s.toList.flatMap escapeChar ++ ['"'])

/-- A line end and the indentation of a level. -/
def newline (level : Nat) : List Char := '\n' :: List.replicate (2 * level) ' '

mutual

/-- A value whose lines, but for the first, are indented by `level`. -/
def renderAt (level : Nat) : Json → List Char
  | null => "null".toList
  | int n => (toString n).toList
  | str s => renderString s
  | arr [] => ['[', ']']
  | arr (x :: rest) =>
    '[' :: (newline (level + 1) ++ renderAt (level + 1) x ++ renderElements level rest ++
      newline level ++ [']'])
  | obj [] => ['{', '}']
  | obj ((k, v) :: rest) =>
    '{' :: (newline (level + 1) ++ renderString k ++ [':', ' '] ++ renderAt (level + 1) v ++
      renderMembers level rest ++ newline level ++ ['}'])

/-- The elements after the first. -/
def renderElements (level : Nat) : List Json → List Char
  | [] => []
  | x :: rest =>
    ',' :: (newline (level + 1) ++ renderAt (level + 1) x ++ renderElements level rest)

/-- The members after the first. -/
def renderMembers (level : Nat) : List (String × Json) → List Char
  | [] => []
  | (k, v) :: rest =>
    ',' :: (newline (level + 1) ++ renderString k ++ [':', ' '] ++ renderAt (level + 1) v ++
      renderMembers level rest)

end

/-- A value as text. -/
def render (v : Json) : String := String.ofList (renderAt 0 v)

end Json
end LetOrConst.Report
