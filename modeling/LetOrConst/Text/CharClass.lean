/-
Sets of characters kept as the code points where membership flips, which is how long tables of
ranges are written down most briefly.
-/
namespace LetOrConst.Text

/-- A set of characters. `flips` ascends; the characters from the first flip up to the second are
in the set, from the second up to the third they are not, and so on. -/
structure CharClass where
  flips : List Nat

/-- The class with the given flips. -/
def CharClass.ofFlips (flips : List Nat) : CharClass := ⟨flips⟩

/-- A character is in the class when an odd number of flips lies at or below it. -/
def CharClass.contains (k : CharClass) (c : Char) : Bool :=
  (k.flips.takeWhile (· ≤ c.toNat)).length % 2 == 1

end LetOrConst.Text
