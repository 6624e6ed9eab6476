/-
UTF-8, read in three ways over one splitting of the bytes: strictly, with the place and the reason
of the first fault, or leniently, with a replacement character for every faulty part. A faulty part
is as long as the longest start of a character it holds, and never shorter than one byte.
-/
import LetOrConst.Text.Quoted

namespace LetOrConst.Text.Utf8

/-- Why bytes do not form a character. -/
inductive Reason where
  /-- No character starts with this byte. -/
  | badStart
  /-- A byte that should go on with the character does not. -/
  | badContinuation
  /-- The bytes end inside the character. -/
  | truncated
  deriving DecidableEq, Repr

/-- The wording of a reason. -/
def Reason.message : Reason → String
  | .badStart => "invalid start byte"
  | .badContinuation => "invalid continuation byte"
  | .truncated => "unexpected end of data"

/-- The bytes of a text. -/
def encode (cs : List Char) : List UInt8 := cs.flatMap String.utf8EncodeChar

/-- What a first byte announces: the bits it contributes, how many bytes follow, and the range of
the first of them. -/
structure Lead where
  bits : Nat
  tails : Nat
  lo : Nat
  hi : Nat

/-- The announcement of a first byte. Overlong forms, surrogates and code points beyond the last
one are kept out by the range of the second byte. -/
def lead? (b : UInt8) : Option Lead :=
  let n := b.toNat
  if n < 0x80 then some ⟨n, 0, 0, 0⟩
  else if 0xc2 ≤ n ∧ n ≤ 0xdf then some ⟨n - 0xc0, 1, 0x80, 0xbf⟩
  else if n = 0xe0 then some ⟨0, 2, 0xa0, 0xbf⟩
  else if n = 0xed then some ⟨0xd, 2, 0x80, 0x9f⟩
  else if 0xe1 ≤ n ∧ n ≤ 0xef then some ⟨n - 0xe0, 2, 0x80, 0xbf⟩
  else if n = 0xf0 then some ⟨0, 3, 0x90, 0xbf⟩
  else if 0xf1 ≤ n ∧ n ≤ 0xf3 then some ⟨n - 0xf0, 3, 0x80, 0xbf⟩
  else if n = 0xf4 then some ⟨4, 3, 0x80, 0x8f⟩
  else none

/-- A part of the bytes: a character, or a fault with the bytes it covers. -/
inductive Part where
  | char (c : Char)
  | fault (reason : Reason) (bytes : List UInt8)
  deriving Repr

/-- Reads the `tails` bytes that are still missing after `seen`, the next of them between `lo` and
`hi`. Returns the part and the bytes behind it. -/
def readTails (seen : List UInt8) (code : Nat) :
    (tails lo hi : Nat) → List UInt8 → Part × List UInt8
  | 0, _, _, rest => (.char (Char.ofNat code), rest)
  | _ + 1, _, _, [] => (.fault .truncated seen, [])
  | tails + 1, lo, hi, b :: rest =>
    if lo ≤ b.toNat ∧ b.toNat ≤ hi then
      readTails (seen ++ [b]) (code * 64 + (b.toNat - 0x80)) tails 0x80 0xbf rest
    else (.fault .badContinuation seen, b :: rest)

/-- The part that starts with byte `b`, and the bytes behind it. -/
def readPart (b : UInt8) (rest : List UInt8) : Part × List UInt8 :=
  match lead? b with
  | none => (.fault .badStart [b], rest)
  | some l => readTails [b] l.bits l.tails l.lo l.hi rest

theorem length_readTails_le (seen : List UInt8) (code tails lo hi : Nat) (bytes : List UInt8) :
    (readTails seen code tails lo hi bytes).2.length ≤ bytes.length := by
  induction tails generalizing seen code lo hi bytes with
  | zero => simp [readTails]
  | succ tails ih =>
    cases bytes with
    | nil => simp [readTails]
    | cons b rest =>
      simp only [readTails]
      split
      · exact Nat.le_trans (ih ..) (Nat.le_succ _)
      · exact Nat.le_refl _

theorem length_readPart_le (b : UInt8) (rest : List UInt8) :
    (readPart b rest).2.length ≤ rest.length := by
  unfold readPart
  split
  · exact Nat.le_refl _
  · exact length_readTails_le ..

/-- The parts of a byte sequence, in order. -/
def parts : List UInt8 → List Part
  | [] => []
  | b :: rest => (readPart b rest).1 :: parts (readPart b rest).2
termination_by bytes => bytes.length
decreasing_by exact Nat.lt_succ_of_le (length_readPart_le b rest)

/-- The character that stands for a faulty part. -/
def replacement : Char := Char.ofNat 0xfffd

/-- A part as one character. -/
def Part.toChar : Part → Char
  | .char c => c
  | .fault _ _ => replacement

/-- The text of the bytes, with the replacement character for every faulty part. -/
def decodeLossy (bytes : List UInt8) : List Char := (parts bytes).map Part.toChar

/-- The first fault of a byte sequence: why, which bytes, and how many bytes stand before them. -/
structure Fault where
  reason : Reason
  bytes : List UInt8
  offset : Nat
  deriving DecidableEq, Repr

/-- The characters of parts that start at `offset`, or the first fault among them. -/
def collect (offset : Nat) : List Part → Except Fault (List Char)
  | [] => .ok []
  | .fault reason bytes :: _ => .error ⟨reason, bytes, offset⟩
  | .char c :: rest => (collect (offset + c.utf8Size) rest).map (c :: ·)

/-- The text of the bytes, or their first fault. -/
def decode (bytes : List UInt8) : Except Fault (List Char) := collect 0 (parts bytes)

/-- Where a fault lies: a single byte is shown, several are given by their positions. -/
def Fault.place (f : Fault) : String :=
  match f.bytes with
  | [b] => s!"byte 0x{String.ofList (hexDigits 2 b.toNat)} in position {f.offset}"
  | bytes => s!"bytes in position {f.offset}-{f.offset + bytes.length - 1}"

/-- The wording of a fault. -/
def Fault.message (f : Fault) : String :=
  s!"'utf-8' codec can't decode {f.place}: {f.reason.message}"

end LetOrConst.Text.Utf8
