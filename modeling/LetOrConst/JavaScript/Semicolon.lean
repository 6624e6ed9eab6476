/-
Where a semicolon may be left out: at the end of the text, before a closing brace, and at the end
of a line unless what follows goes on with the statement.

The gap is tried from its start, and again behind every remark in it. Where no operand could go on
anyway, a remark that reaches over the end of a line counts as the end of a line.
-/
import LetOrConst.JavaScript.Gap

namespace LetOrConst.JavaScript.Semicolon

open Gap (Piece)

/-- Whether a text starts with letters that are the whole of a word operator. Only a letter behind
them makes another word of them. -/
def startsWithOperator (name : List Char) (cs : List Char) : Bool :=
  name.isPrefixOf cs &&
    match cs.drop name.length with
    | c :: _ => !(c.isAlpha || (128 ≤ c.toNat && !isSpace c))
    | [] => true

/-- Whether what stands on a new line may go on with the statement of the line before it. -/
def goesOn : List Char → Bool
  | '.' :: rest => !(rest.head?.any Char.isDigit)
  | '+' :: rest => rest.head? != some '+'
  | '-' :: rest => rest.head? != some '-'
  | '!' :: rest => rest.head? == some '='
  | 'i' :: rest =>
    startsWithOperator "in".toList ('i' :: rest) ||
      startsWithOperator "instanceof".toList ('i' :: rest)
  | c :: _ => "`,:;*%><=[(?^|&/".toList.contains c
  | [] => false

/-- Whether what stands behind the end of a line, breaking spaces and remarks left aside, does not
go on with the line. -/
def afterLineEnd : List Piece → List Char → Bool
  | .space c :: ps, cs => if isBreakingSpace c then afterLineEnd ps cs else true
  | .line _ :: ps, cs => afterLineEnd ps cs
  | .block .. :: ps, cs => afterLineEnd ps cs
  | [], cs => !goesOn cs

/-- Whether a declaration or an assignment goes on with the next character. -/
def continues (cs : List Char) : Bool := cs.head?.any fun c => c == ',' || c == '='

/-- Whether the gap from a remark on ends a statement that no operand could go on with. `broken`
tells whether a remark went over several lines so far. A remark between marks stops the search,
unless another one follows it at once. -/
def overRemarks (broken : Bool) : List Piece → List Char → Bool
  | .space c :: ps, cs => if isBreakingSpace c then overRemarks broken ps cs else true
  | .line _ :: ps, cs => overRemarks broken ps cs
  | .block _ b :: .line more :: ps, cs => overRemarks (broken || b) (.line more :: ps) cs
  | .block _ b :: .block more b' :: ps, cs =>
    overRemarks (broken || b) (.block more b' :: ps) cs
  | .block _ b :: .space _ :: _, _ => broken || b
  | [.block _ b], cs => (broken || b) && cs.head? != some '/' && !continues cs
  | [], cs => cs.head? != some '/' && !continues cs

/-- One try from a place in the gap: only breaking spaces and remarks may come before the end of
the line, the end of the text or a closing brace. -/
def tryFrom (restricted : Bool) : List Piece → List Char → Bool
  | .space c :: ps, cs =>
    if isLineEnd c then afterLineEnd ps cs
    else isBreakingSpace c && tryFrom restricted ps cs
  | .line more :: ps, cs => restricted && overRemarks false (.line more :: ps) cs
  | .block more b :: ps, cs =>
    (restricted && overRemarks false (.block more b :: ps) cs) || tryFrom restricted ps cs
  | [], cs => cs.head?.all (· == '}')

/-- Tries behind the remarks of a gap. -/
def tryBehindRemarks (restricted : Bool) : List Piece → List Char → Bool
  | .space _ :: ps, cs => tryBehindRemarks restricted ps cs
  | _ :: ps, cs => tryFrom restricted ps cs || tryBehindRemarks restricted ps cs
  | [], _ => false

/-- Whether a semicolon may be left out before a text. -/
def mayBeOmitted (restricted : Bool) (cs : List Char) : Bool :=
  let ps := Gap.pieces false cs
  let ahead := cs.drop (Gap.totalLength ps)
  tryFrom restricted ps ahead || tryBehindRemarks restricted ps ahead

end LetOrConst.JavaScript.Semicolon
