/-
What may stand between two tokens: white space and remarks. A gap is kept as its pieces, because
two questions are asked of it: where the next token starts, and whether it may stand for a
semicolon.
-/
import LetOrConst.JavaScript.Cursor

namespace LetOrConst.JavaScript

/-- The end of a line. A carriage return alone is none. -/
def isLineEnd (c : Char) : Bool := c == '\n' || c == '\u2028' || c == '\u2029'

/-- White space between tokens: that of Unicode, the byte order mark and two invisible joints. -/
def isSpace (c : Char) : Bool :=
  let n := c.toNat
  (9 ≤ n && n ≤ 13) || n == 32 || n == 0x85 || n == 0xa0 || n == 0x1680 ||
    (0x2000 ≤ n && n ≤ 0x200b) || n == 0x2028 || n == 0x2029 || n == 0x202f || n == 0x205f ||
    n == 0x2060 || n == 0x3000 || n == 0xfeff

/-- White space that a semicolon may be left out behind: spaces that a line can be broken at. -/
def isBreakingSpace (c : Char) : Bool :=
  let n := c.toNat
  isSpace c && n != 0x85 && n != 0xa0 && n != 0x2007 && n != 0x200b && n != 0x202f &&
    n != 0x2060 && n != 0xfeff

namespace Gap

/-- A piece of a gap. Remarks carry the number of their characters after the first. -/
inductive Piece where
  | space (c : Char)
  /-- A remark up to the end of its line. -/
  | line (more : Nat)
  /-- A remark between marks, and whether it goes over several lines. -/
  | block (more : Nat) (broken : Bool)
  deriving Repr

/-- How many characters a piece has. -/
def Piece.length : Piece → Nat
  | space _ => 1
  | line more => more + 1
  | block more _ => more + 1

/-- How many characters there are up to and with the mark that closes a remark. -/
def closing? : List Char → Option Nat
  | '*' :: '/' :: _ => some 2
  | _ :: rest => (closing? rest).map (· + 1)
  | [] => none

/-- The piece at the start of a text. With `htmlLike`, the marks that hide a script from readers of
the page around it open a remark too. -/
def piece? (htmlLike : Bool) : List Char → Option Piece
  | '/' :: '/' :: rest =>
    some (.line (1 + (rest.takeWhile fun c => !isLineEnd c && c != '\r').length))
  | '/' :: '*' :: rest =>
    (closing? rest).map fun n => .block (1 + n) ((rest.take n).any isLineEnd)
  | '<' :: '!' :: '-' :: '-' :: rest =>
    if htmlLike then some (.line (3 + (rest.takeWhile fun c => !isLineEnd c).length)) else none
  | '-' :: '-' :: '>' :: rest =>
    if htmlLike then some (.line (2 + (rest.takeWhile fun c => !isLineEnd c).length)) else none
  | c :: _ => if isSpace c then some (.space c) else none
  | [] => none

theorem piece?_nil (htmlLike : Bool) : piece? htmlLike [] = none := rfl

/-- The pieces at the start of a text. -/
def pieces (htmlLike : Bool) (cs : List Char) : List Piece :=
  match _h : piece? htmlLike cs with
  | none => []
  | some p => p :: pieces htmlLike (cs.drop p.length)
termination_by cs.length
decreasing_by
  cases cs with
  | nil => simp [piece?_nil] at _h
  | cons c rest =>
    cases p <;> simp only [Piece.length, List.length_drop, List.length_cons] <;> omega

/-- How many characters some pieces have. -/
def totalLength : List Piece → Nat
  | [] => 0
  | p :: ps => p.length + totalLength ps

end Gap

/-- The place of the next token. -/
def Cursor.skipGap (k : Cursor) (htmlLike : Bool := false) : Cursor :=
  k.drop (Gap.totalLength (Gap.pieces htmlLike k.rest))

end LetOrConst.JavaScript
