/-
Findings about declarations, each at the place it speaks of.
-/
import LetOrConst.Text.Quoted

namespace LetOrConst

/-- A finding. -/
structure Issue where
  kind : String
  line : Int
  column : Int
  message : String
  deriving DecidableEq, Repr, Inhabited

namespace Issue

/-- A finding as a line for people. -/
def render (i : Issue) : String := s!"Line {i.line}: {i.message}"

/-- A finding with all its parts, as logs show it. -/
def describe (i : Issue) : String :=
  let kind := Text.quoted i.kind
  let message := Text.quoted i.message
  s!"Issue(kind={kind}, line={i.line}, col={i.column}, message={message})"

end Issue
end LetOrConst
