/-
The parts of the grammar that refer to each other. Each reader of such a part takes the readers of
all of them as an argument, and the knot is tied where a program is read.
-/
import LetOrConst.JavaScript.Reader

namespace LetOrConst.JavaScript

/-- What the surroundings of an expression allow in it. -/
structure Context where
  /-- Whether `in` is an operator. -/
  inOperator : Bool := true
  /-- Whether a statement may end where the expression ends, so that a semicolon may be left
  out. -/
  mayEnd : Bool := false
  deriving DecidableEq, Repr

/-- Between brackets. -/
def Context.bracketed : Context := {}

/-- At the end of a statement. -/
def Context.final : Context := { mayEnd := true }

/-- The parts of the grammar that can contain each other. -/
inductive Rule where
  | statement
  /-- Statements between braces. -/
  | block
  /-- Expressions with commas between them. -/
  | expressions (ctx : Context)
  /-- An expression of operators that bind at least as strongly as the level says. -/
  | binary (level : Nat) (ctx : Context)
  /-- An operand with the operators that stand at it. -/
  | operand (ctx : Context)
  /-- The creation of an object. -/
  | creation (ctx : Context)
  /-- An element of embedded markup. -/
  | element

/-- The level of the operators that bind least. -/
def lowestLevel : Nat := 1

/-- An expression without a comma. -/
def Rule.expression (ctx : Context) : Rule := .binary lowestLevel ctx

/-- The readers of all rules. -/
abbrev Rules := Rule → Reader Grammar.Node

end LetOrConst.JavaScript
