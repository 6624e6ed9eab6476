/-
Reading JSON. The decoder takes all of the format and knows nothing of how reports are written: the text
is cut into lexemes (`tokens?`), where the characters of a string are UTF-16 units that may be escaped
(`readUnits`), and the lexemes are put together over a stack of the arrays and objects that are open
(`Reading.step`).
-/
import LetOrConst.Report.Json

namespace LetOrConst.Report

/-- A value that has been read. A number is an integer times a power of ten; members keep their order. -/
inductive Value where
  | null
  | bool (b : Bool)
  | number (mantissa exponent : Int)
  | string (s : String)
  | array (elements : List Value)
  | object (members : List (String × Value))

/-- The lexemes. -/
inductive Token where
  | openArray
  | closeArray
  | openObject
  | closeObject
  | comma
  | colon
  | text (s : String)
  | scalar (v : Value)

namespace Decode

/-! ## Strings -/

/-- The UTF-16 units of a character. -/
def units (c : Char) : List Nat :=
  if c.toNat < 0x10000 then [c.toNat]
  else [0xd800 + (c.toNat - 0x10000) / 0x400, 0xdc00 + (c.toNat - 0x10000) % 0x400]

/-- The characters of some UTF-16 units, if every surrogate has its other half. -/
def joinUnits : List Nat → Option (List Char)
  | [] => some []
  | [u] => if 0xd800 ≤ u ∧ u < 0xe000 then none else some [Char.ofNat u]
  | u :: v :: rest =>
    if 0xd800 ≤ u ∧ u < 0xdc00 then
      if 0xdc00 ≤ v ∧ v < 0xe000 then
        (joinUnits rest).map (Char.ofNat (0x10000 + (u - 0xd800) * 0x400 + (v - 0xdc00)) :: ·)
      else none
    else if 0xdc00 ≤ u ∧ u < 0xe000 then none
    else (joinUnits (v :: rest)).map (Char.ofNat u :: ·)

/-- The value of a hexadecimal digit. -/
def hexValue? (c : Char) : Option Nat :=
  if '0' ≤ c ∧ c ≤ '9' then some (c.toNat - '0'.toNat)
  else if 'a' ≤ c ∧ c ≤ 'f' then some (c.toNat - 'a'.toNat + 10)
  else if 'A' ≤ c ∧ c ≤ 'F' then some (c.toNat - 'A'.toNat + 10)
  else none

/-- The value of some hexadecimal digits after others that came to `high`. -/
def hexValues? (high : Nat) : List Char → Option Nat
  | [] => some high
  | c :: rest => (hexValue? c).bind fun d => hexValues? (16 * high + d) rest

/-- The unit that a single letter after a backslash stands for. -/
def shortEscape? : Char → Option Nat
  | '"' => some 0x22
  | '\\' => some 0x5c
  | '/' => some 0x2f
  | 'b' => some 8
  | 'f' => some 12
  | 'n' => some 10
  | 'r' => some 13
  | 't' => some 9
  | _ => none

/-- The units up to the closing quote, and what comes after it. -/
def readUnits : List Char → Option (List Nat × List Char)
  | [] => none
  | '"' :: rest => some ([], rest)
  | '\\' :: 'u' :: a :: b :: c :: d :: rest =>
    (hexValues? 0 [a, b, c, d]).bind fun u => (readUnits rest).map fun r => (u :: r.1, r.2)
  | '\\' :: e :: rest => (shortEscape? e).bind fun u => (readUnits rest).map fun r => (u :: r.1, r.2)
  | c :: rest =>
    if c.toNat < 0x20 ∨ c = '\\' then none else (readUnits rest).map fun r => (units c ++ r.1, r.2)

/-- The string up to the closing quote. -/
def readString (cs : List Char) : Option (Token × List Char) :=
  (readUnits cs).bind fun r => (joinUnits r.1).map fun s => (.text (String.ofList s), r.2)

/-! ## Numbers -/

/-- Some digits, at least one, and what comes after them. -/
def readDigits (cs : List Char) : Option (List Char × List Char) :=
  if cs.takeWhile Char.isDigit = [] then none else some (cs.takeWhile Char.isDigit, cs.dropWhile Char.isDigit)

/-- The digits after a point, none where there is no point. -/
def readFraction : List Char → Option (List Char × List Char)
  | '.' :: rest => readDigits rest
  | cs => some ([], cs)

/-- A minus sign or not. -/
def readMinus : List Char → Bool × List Char
  | '-' :: rest => (true, rest)
  | cs => (false, cs)

/-- The power of ten, zero where none is written. -/
def readExponent : List Char → Option (Int × List Char)
  | c :: rest =>
    if c = 'e' ∨ c = 'E' then
      let sign := if rest.head? = some '+' then (false, rest.tail) else readMinus rest
      (readDigits sign.2).map fun r => (if sign.1 then -Nat.ofDigitChars 10 r.1 0 else Nat.ofDigitChars 10 r.1 0, r.2)
    else some (0, c :: rest)
  | [] => some (0, [])

/-- The number with these digits before and after the point, times a power of ten. -/
def numberOf (minus : Bool) (whole fraction : List Char) (exponent : Int) : Value :=
  let mantissa : Int := Nat.ofDigitChars 10 (whole ++ fraction) 0
  .number (if minus then -mantissa else mantissa) (exponent - fraction.length)

/-- A number. No digit may follow a zero in front. -/
def readNumber (cs : List Char) : Option (Token × List Char) :=
  (readDigits (readMinus cs).2).bind fun whole =>
    if whole.1.head? = some '0' ∧ whole.1 ≠ ['0'] then none
    else
      (readFraction whole.2).bind fun fraction =>
        (readExponent fraction.2).map fun exponent =>
          (.scalar (numberOf (readMinus cs).1 whole.1 fraction.1 exponent.1), exponent.2)

/-! ## Lexemes -/

/-- One of the three words. -/
def readWord : List Char → Option (Token × List Char)
  | 'n' :: 'u' :: 'l' :: 'l' :: rest => some (.scalar .null, rest)
  | 't' :: 'r' :: 'u' :: 'e' :: rest => some (.scalar (.bool true), rest)
  | 'f' :: 'a' :: 'l' :: 's' :: 'e' :: rest => some (.scalar (.bool false), rest)
  | _ => none

/-- The lexeme that starts with a character. -/
def lexeme (c : Char) (rest : List Char) : Option (Token × List Char) :=
  match c with
  | '[' => some (.openArray, rest)
  | ']' => some (.closeArray, rest)
  | '{' => some (.openObject, rest)
  | '}' => some (.closeObject, rest)
  | ',' => some (.comma, rest)
  | ':' => some (.colon, rest)
  | '"' => readString rest
  | c => if c = '-' ∨ c.isDigit then readNumber (c :: rest) else readWord (c :: rest)

/-- Blanks that may stand between lexemes. -/
def isBlank (c : Char) : Bool := c = ' ' || c = '\n' || c = '\r' || c = '\t'

theorem length_readUnits {cs rest : List Char} {us : List Nat} (h : readUnits cs = some (us, rest)) :
    rest.length < cs.length := by
  fun_induction readUnits cs generalizing us with
  | case1 => cases h
  | case2 rest' => cases h; simp
  | case3 a b c d rest' ih =>
    obtain ⟨u, -, h⟩ := Option.bind_eq_some_iff.1 h
    obtain ⟨r, hr, hpair⟩ := Option.map_eq_some_iff.1 h
    cases hpair
    have := ih hr
    simp only [List.length_cons]
    omega
  | case4 e rest' _ ih =>
    obtain ⟨u, -, h⟩ := Option.bind_eq_some_iff.1 h
    obtain ⟨r, hr, hpair⟩ := Option.map_eq_some_iff.1 h
    cases hpair
    have := ih hr
    simp only [List.length_cons]
    omega
  | case5 => cases h
  | case6 c rest' _ _ _ _ ih =>
    obtain ⟨r, hr, hpair⟩ := Option.map_eq_some_iff.1 h
    cases hpair
    have := ih hr
    simp only [List.length_cons]
    omega

theorem length_readDigits {cs ds rest : List Char} (h : readDigits cs = some (ds, rest)) : rest.length < cs.length := by
  unfold readDigits at h
  split at h
  · cases h
  · rename_i hne
    cases h
    have hsplit := congrArg List.length (List.takeWhile_append_dropWhile (p := Char.isDigit) (l := cs))
    have hpos := List.length_pos_iff.2 hne
    rw [List.length_append] at hsplit
    omega

theorem length_readFraction {cs ds rest : List Char} (h : readFraction cs = some (ds, rest)) :
    rest.length ≤ cs.length := by
  unfold readFraction at h
  split at h
  · have := length_readDigits h
    simp only [List.length_cons]
    omega
  · cases h
    exact Nat.le_refl _

theorem length_readMinus (cs : List Char) : (readMinus cs).2.length ≤ cs.length := by
  unfold readMinus
  split <;> simp

theorem length_readExponent {cs rest : List Char} {e : Int} (h : readExponent cs = some (e, rest)) :
    rest.length ≤ cs.length := by
  unfold readExponent at h
  split at h
  · rename_i c cs
    split at h
    · obtain ⟨⟨ds, rest'⟩, hr, hpair⟩ := Option.map_eq_some_iff.1 h
      cases hpair
      have hdigits := length_readDigits hr
      have hsign : (if cs.head? = some '+' then (false, cs.tail) else readMinus cs).2.length ≤ cs.length := by
        split
        · simp
        · exact length_readMinus cs
      simp only [List.length_cons]
      omega
    · cases h
      exact Nat.le_refl _
  · cases h
    exact Nat.le_refl _

theorem length_readNumber {cs rest : List Char} {t : Token} (h : readNumber cs = some (t, rest)) :
    rest.length < cs.length := by
  unfold readNumber at h
  obtain ⟨⟨whole, cs₁⟩, hwhole, h⟩ := Option.bind_eq_some_iff.1 h
  split at h
  · cases h
  · obtain ⟨⟨fraction, cs₂⟩, hfraction, h⟩ := Option.bind_eq_some_iff.1 h
    obtain ⟨⟨exponent, cs₃⟩, hexponent, hpair⟩ := Option.map_eq_some_iff.1 h
    cases hpair
    have h₀ := length_readMinus cs
    have h₁ := length_readDigits hwhole
    have h₂ := length_readFraction hfraction
    have h₃ := length_readExponent hexponent
    simp only at h₁ h₂ h₃ ⊢
    omega

theorem length_readWord {cs rest : List Char} {t : Token} (h : readWord cs = some (t, rest)) :
    rest.length < cs.length := by
  unfold readWord at h
  split at h
  · cases h; simp only [List.length_cons]; omega
  · cases h; simp only [List.length_cons]; omega
  · cases h; simp only [List.length_cons]; omega
  · cases h

theorem length_lexeme {c : Char} {cs rest : List Char} {t : Token} (h : lexeme c cs = some (t, rest)) :
    rest.length ≤ cs.length := by
  unfold lexeme at h
  split at h
  case h_7 =>
    obtain ⟨⟨us, rest'⟩, hunits, h⟩ := Option.bind_eq_some_iff.1 h
    obtain ⟨s, -, hpair⟩ := Option.map_eq_some_iff.1 h
    cases hpair
    exact Nat.le_of_lt (length_readUnits hunits)
  case h_8 =>
    split at h
    · exact Nat.le_of_lt_succ (length_readNumber h)
    · exact Nat.le_of_lt_succ (length_readWord h)
  all_goals
    cases h
    exact Nat.le_refl _

/-- The lexemes of a text. -/
def tokens? : List Char → Option (List Token)
  | [] => some []
  | c :: cs =>
    if isBlank c then tokens? cs
    else
      match _h : lexeme c cs with
      | some (t, rest) => (tokens? rest).map (t :: ·)
      | none => none
termination_by cs => cs.length
decreasing_by
  · simp
  · have := length_lexeme _h
    simp only [List.length_cons]
    omega

/-! ## Values -/

/-- What is open around a value that is being read. -/
inductive Frame where
  | array (before : List Value)
  | object (before : List (String × Value)) (key : String)

/-- What has to come next. -/
inductive Expect where
  | value
  | elementOrEnd
  | keyOrEnd
  | key (before : List (String × Value))
  | colon (before : List (String × Value)) (key : String)
  /-- Whatever may follow a value. -/
  | after (v : Value)

end Decode

open Decode in
/-- A text that has been read in part. -/
structure Reading where
  stack : List Frame
  expect : Expect

namespace Reading

open Decode

/-- A lexeme as the start of a value. -/
def start (stack : List Frame) : Token → Option Reading
  | .openArray => some ⟨stack, .elementOrEnd⟩
  | .openObject => some ⟨stack, .keyOrEnd⟩
  | .text s => some ⟨stack, .after (.string s)⟩
  | .scalar v => some ⟨stack, .after v⟩
  | _ => none

/-- The lexeme after a value in an array or object. -/
def close (v : Value) : List Frame → Token → Option Reading
  | .array before :: stack, .comma => some ⟨.array (before ++ [v]) :: stack, .value⟩
  | .array before :: stack, .closeArray => some ⟨stack, .after (.array (before ++ [v]))⟩
  | .object before key :: stack, .comma => some ⟨stack, .key (before ++ [(key, v)])⟩
  | .object before key :: stack, .closeObject => some ⟨stack, .after (.object (before ++ [(key, v)]))⟩
  | _, _ => none

/-- Reads one more lexeme. -/
def step (r : Reading) (t : Token) : Option Reading :=
  match r.expect, t with
  | .value, t => start r.stack t
  | .elementOrEnd, .closeArray => some ⟨r.stack, .after (.array [])⟩
  | .elementOrEnd, t => start (.array [] :: r.stack) t
  | .keyOrEnd, .closeObject => some ⟨r.stack, .after (.object [])⟩
  | .keyOrEnd, .text key => some ⟨r.stack, .colon [] key⟩
  | .key before, .text key => some ⟨r.stack, .colon before key⟩
  | .colon before key, .colon => some ⟨.object before key :: r.stack, .value⟩
  | .after v, t => close v r.stack t
  | _, _ => none

/-- The value, once all is read. -/
def result? : Reading → Option Value
  | ⟨[], .after v⟩ => some v
  | _ => none

end Reading

/-- The value that a text denotes. -/
def decode? (text : String) : Option Value := do
  let tokens ← Decode.tokens? text.toList
  let reading ← tokens.foldlM Reading.step ⟨[], .value⟩
  reading.result?

example : decode? " [1.5e-3, \"\\ud83d\\ude00\\/\", \x7b\"a\": [true, null, -0]\x7d]\t" =
    some (.array [.number 15 (-4), .string "😀/", .object [("a", .array [.bool true, .null, .number 0 0])]]) := by
  with_unfolding_all rfl

end LetOrConst.Report
