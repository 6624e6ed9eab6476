/-
A place in a text that is being read: what is still ahead, and the row, column and byte offset of
that place. Rows count newlines; columns and offsets count bytes.
-/
import LetOrConst.Grammar.Node

namespace LetOrConst.JavaScript

open Grammar (Point Node)

/-- What is ahead, and where that is. -/
structure Cursor where
  rest : List Char
  point : Point := {}
  offset : Nat := 0
  deriving Repr, Inhabited

namespace Cursor

/-- The start of a text. -/
def ofText (text : String) : Cursor := { rest := text.toList }

/-- The place behind the next character. -/
def next (k : Cursor) : Cursor :=
  match k.rest with
  | [] => k
  | c :: rest =>
    { rest
      point := if c = '\n' then ⟨k.point.row + 1, 0⟩
        else ⟨k.point.row, k.point.column + c.utf8Size⟩
      offset := k.offset + c.utf8Size }

/-- The place behind the next `n` characters. -/
def drop : Nat → Cursor → Cursor
  | 0, k => k
  | n + 1, k => drop n k.next

@[simp] theorem rest_next (k : Cursor) : k.next.rest = k.rest.tail := by
  unfold next
  split <;> simp_all

@[simp] theorem rest_drop (n : Nat) (k : Cursor) : (k.drop n).rest = k.rest.drop n := by
  induction n generalizing k with
  | zero => rfl
  | succ n ih => simp [drop, ih]

/-- A node from one place up to another. -/
def nodeTo (start stop : Cursor) (type : String) (children : List Node) : Node where
  type
  point := start.point
  span := ⟨start.offset, stop.offset⟩
  children

end Cursor
end LetOrConst.JavaScript
