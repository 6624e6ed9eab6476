/-
What the standard input delivers of its bytes. A file is read in one way wherever the command runs;
the input comes as a stream that has been set up before, and the encoding, what becomes of bytes
that do not decode, and whether line ends are changed are all up to that stream. So the decoding is
a parameter of a run. For streams in UTF-8 it is given here (`Decoder.utf8`).
-/
import LetOrConst.Files

namespace LetOrConst

/-- What a stream makes of its bytes. -/
inductive Delivered where
  | text (s : String)
  | failed (e : ReadError)
  /-- A text in which bytes that do not decode stand escaped, each as a lone surrogate. It can be
  read, but no encoding has a place for it. -/
  | escaped
  deriving DecidableEq, Repr

/-- How a stream decodes its bytes. -/
abbrev Decoder := List UInt8 → Delivered

/-- The manner of a stream in UTF-8. Without more said, it is that of a terminal or pipe in a locale
with UTF-8: line ends stay as they are, and bytes that do not decode are an error. -/
structure Manner where
  /-- Whether all line ends get one spelling. -/
  unifies : Bool := false
  /-- Whether bytes that do not decode are escaped, as they are in a locale without an encoding. -/
  escapes : Bool := false
  deriving DecidableEq, Repr

/-- The text of characters that have been decoded. -/
def Manner.textOf (m : Manner) (cs : List Char) : String :=
  String.ofList (if m.unifies then Text.unifyNewlines cs else cs)

/-- The decoding of a stream in UTF-8. -/
def Decoder.utf8 (m : Manner) : Decoder := fun bytes =>
  match Text.Utf8.decode bytes with
  | .ok cs => .text (m.textOf cs)
  | .error fault => if m.escapes then .escaped else .failed (.undecodable fault)

end LetOrConst
