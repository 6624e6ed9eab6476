/-
Upper and lower case of whole texts. A character may become several, and a capital sigma becomes
the final form at the end of a word: behind a letter with case and not in front of one.
-/
import LetOrConst.Text.Case.Table

namespace LetOrConst.Text

open Case

/-- The first image of `c` that one of the runs gives. -/
def Case.single (runs : List Run) (c : Char) : Char :=
  (runs.findSome? (·.map? c)).getD c

/-- The image of `c`: a long one where there is one, else a single character. -/
def Case.image (runs : List Run) (long : List (Nat × List Nat)) (c : Char) : List Char :=
  match long.lookup c.toNat with
  | some codes => codes.map Char.ofNat
  | none => [single runs c]

/-- The upper-case form of a text. -/
def upper (cs : List Char) : List Char :=
  cs.flatMap (image upperRuns upperLong)

/-- Whether a capital sigma ends a word, given the characters before it, nearest first, and the
characters behind it. -/
def Case.endsWord (before after : List Char) : Bool :=
  match before.dropWhile ignorable.contains with
  | [] => false
  | b :: _ => cased.contains b &&
    match after.dropWhile ignorable.contains with
    | [] => true
    | a :: _ => !cased.contains a

/-- The lower-case form of a text that stands behind `before`, nearest character first. -/
def Case.lowerAfter (before : List Char) : List Char → List Char
  | [] => []
  | c :: rest =>
    (if c = 'Σ' then [if endsWord before rest then 'ς' else 'σ'] else image lowerRuns lowerLong c)
      ++ lowerAfter (c :: before) rest

/-- The lower-case form of a text. -/
def lower (cs : List Char) : List Char := lowerAfter [] cs

end LetOrConst.Text
