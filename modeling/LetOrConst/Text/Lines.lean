/-
Lines of a text. Splitting honours every line boundary of Unicode, so that it can see more lines
than there are newline characters; a boundary at the very end opens no further line.
-/
namespace LetOrConst.Text

/-- A character that ends a line. -/
def isLineBreak (c : Char) : Bool :=
  let n := c.toNat
  (10 ≤ n && n ≤ 13) || (0x1c ≤ n && n ≤ 0x1e) || n == 0x85 || n == 0x2028 || n == 0x2029

/-- Puts a character in front of the first line. -/
def extendFirst (c : Char) : List (List Char) → List (List Char)
  | [] => [[c]]
  | line :: rest => (c :: line) :: rest

/-- The lines of a text, without their boundaries. A carriage return and the newline after it are
one boundary. -/
def lines : List Char → List (List Char)
  | [] => []
  | '\r' :: '\n' :: rest => [] :: lines rest
  | c :: rest => if isLineBreak c then [] :: lines rest else extendFirst c (lines rest)

/-- The line with the given number, empty when there are not that many. -/
def lineAt (s : String) (row : Nat) : String :=
  String.ofList ((lines s.toList).getD row [])

/-- Every line end in one spelling: a carriage return, with or without a newline behind it, becomes
a newline. -/
def unifyNewlines : List Char → List Char
  | [] => []
  | '\r' :: '\n' :: rest => '\n' :: unifyNewlines rest
  | c :: rest => (if c = '\r' then '\n' else c) :: unifyNewlines rest

end LetOrConst.Text
