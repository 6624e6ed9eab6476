/-
Tokens as far as one can tell them apart without knowing what is expected: words, private names,
numbers, openings of strings, and marks. A slash is a mark here; whether it divides or opens a
regular expression is for the reader to know.
-/
import LetOrConst.JavaScript.Gap

namespace LetOrConst.JavaScript

/-- What a text starts with. -/
inductive Token where
  /-- The end of the text. -/
  | finish
  /-- A name or a keyword. -/
  | word (text : String)
  /-- A name behind a number sign. -/
  | hidden
  | number
  /-- The opening of a string. -/
  | quote (c : Char)
  /-- The longest mark there is. -/
  | mark (text : String)
  /-- Nothing that a token starts with. -/
  | strange
  deriving DecidableEq, Repr

/-- The braces, as marks. -/
@[match_pattern] abbrev braceOpen : String := "\x7b"

@[inherit_doc braceOpen, match_pattern] abbrev braceClose : String := "\x7d"

/-! ## Words -/

/-- A digit of base sixteen. -/
def isHexDigit (c : Char) : Bool :=
  c.isDigit || ('a' ≤ c && c ≤ 'f') || ('A' ≤ c && c ≤ 'F')

/-- A character that may stand in a word as it is: no control character, no space and none of the
marks. -/
def isWordChar (c : Char) : Bool :=
  0x1f < c.toNat && !isSpace c && !"\x7b\x7d:;`\"'@#.,|^&<=>+-*/\\%?!~()[]".toList.contains c

/-- The length of a character written by its code, or zero. -/
def codeEscapeLength : List Char → Nat
  | '\\' :: 'u' :: '{' :: rest =>
    let digits := rest.takeWhile isHexDigit
    if digits ≠ [] ∧ (rest.drop digits.length).head? = some '}' then digits.length + 4 else 0
  | '\\' :: 'u' :: rest =>
    if (rest.take 4).length = 4 ∧ (rest.take 4).all isHexDigit then 6 else 0
  | _ => 0

/-- The length of the part of a word at the start of a text, or zero. -/
def wordLength (cs : List Char) : Nat :=
  match cs with
  | [] => 0
  | c :: rest =>
    if isWordChar c then wordLength rest + 1
    else
      match codeEscapeLength (c :: rest) with
      | 0 => 0
      | n + 1 => wordLength ((c :: rest).drop (n + 1)) + (n + 1)
termination_by cs.length
decreasing_by
  · simp only [List.length_cons]
    omega
  · simp only [List.length_drop, List.length_cons]
    omega

/-- Words that are never names. -/
def reserved : List String :=
  ["break", "case", "catch", "class", "const", "continue", "debugger", "default", "delete", "do",
   "else", "export", "extends", "false", "finally", "for", "function", "if", "import", "in",
   "instanceof", "new", "null", "return", "super", "switch", "this", "throw", "true", "try",
   "typeof", "var", "void", "while", "with"]

/-- Whether a word is never a name. -/
def isReserved (text : String) : Bool := reserved.contains text

/-! ## Numbers -/

/-- The length of digits with single underscores between them, or zero. -/
def digitsLength (isDigit : Char → Bool) : List Char → Nat
  | '_' :: _ => 0
  | cs => go cs
where
  go : List Char → Nat
    | '_' :: c :: rest => if isDigit c then go rest + 2 else 0
    | c :: rest => if isDigit c then go rest + 1 else 0
    | [] => 0

/-- The length of an exponent, or zero. -/
def exponentLength : List Char → Nat
  | e :: rest =>
    if e = 'e' ∨ e = 'E' then
      let sign := if rest.head?.any fun c => c == '+' || c == '-' then 1 else 0
      match digitsLength Char.isDigit (rest.drop sign) with
      | 0 => 0
      | n => 1 + sign + n
    else 0
  | [] => 0

/-- The length of what follows the digits of a whole number: the mark of a big number or, where the
digits take one, a fraction or an exponent. -/
def numberTailLength (fraction : Bool) (cs : List Char) : Nat :=
  if fraction ∧ cs.head? = some '.' then
    let digits := digitsLength Char.isDigit cs.tail
    1 + digits + exponentLength (cs.tail.drop digits)
  else if cs.head? = some 'n' then 1
  else if fraction then exponentLength cs else 0

/-- Whether digits may be followed by a fraction: a zero that leads must be the only one. -/
def takesFraction : List Char → Bool
  | ['0'] => true
  | '0' :: c :: _ => '1' ≤ c && c ≤ '9'
  | _ => true

/-- The length of a number whose digits are of a given base, behind its two marks. -/
def basedLength (isDigit : Char → Bool) (rest : List Char) : Nat :=
  match digitsLength isDigit rest with
  | 0 => 1
  | n => 2 + n + (if (rest.drop n).head? = some 'n' then 1 else 0)

/-- The length of the number at the start of a text, or zero. -/
def numberLength : List Char → Nat
  | '.' :: rest =>
    match digitsLength Char.isDigit rest with
    | 0 => 0
    | n => 1 + n + exponentLength (rest.drop n)
  | '0' :: 'x' :: rest => basedLength isHexDigit rest
  | '0' :: 'X' :: rest => basedLength isHexDigit rest
  | '0' :: 'b' :: rest => basedLength (fun c => c == '0' || c == '1') rest
  | '0' :: 'B' :: rest => basedLength (fun c => c == '0' || c == '1') rest
  | '0' :: 'o' :: rest => basedLength (fun c => '0' ≤ c && c ≤ '7') rest
  | '0' :: 'O' :: rest => basedLength (fun c => '0' ≤ c && c ≤ '7') rest
  | cs =>
    match digitsLength Char.isDigit cs with
    | 0 => 0
    | n => n + numberTailLength (takesFraction (cs.take n)) (cs.drop n)

/-! ## Marks -/

/-- All marks, longer ones first. -/
def marks : List String :=
  [">>>=", "...", "===", "!==", "**=", "<<=", ">>=", ">>>", "&&=", "||=", "??=", "=>", "==", "!=",
   "<=", ">=", "&&", "||", "??", "?.", "++", "--", "+=", "-=", "*=", "/=", "%=", "&=", "|=", "^=",
   "<<", ">>", "**", "\x7b", "\x7d", "(", ")", "[", "]", ".", ";", ",", "<", ">", "+", "-", "*",
   "/", "%", "&", "|", "^", "!", "~", "?", ":", "=", "@", "`"]

/-- The longest mark at the start of a text. A question mark before a fraction stands alone. -/
def mark? (cs : List Char) : Option String :=
  match cs with
  | '?' :: '.' :: d :: _ =>
    if d.isDigit then some "?" else some "?."
  | _ => marks.find? fun m => m.toList.isPrefixOf cs

/-! ## Tokens -/

namespace Token

/-- The token at the start of a text. -/
def ofChars (cs : List Char) : Token :=
  match cs with
  | [] => finish
  | c :: rest =>
    if c.isDigit ∨ (c = '.' ∧ rest.head?.any Char.isDigit) then number
    else if c = '"' ∨ c = '\'' then quote c
    else if c = '#' then
      if wordLength rest = 0 ∨ rest.head?.any Char.isDigit then strange else hidden
    else
      match wordLength cs with
      | 0 => (mark? cs).elim strange mark
      | n => word (String.ofList (cs.take n))

/-- The length of the token at the start of a text, for a string only that of its opening. -/
def lengthIn (cs : List Char) : Token → Nat
  | finish => 0
  | word _ => wordLength cs
  | hidden => 1 + wordLength cs.tail
  | number => numberLength cs
  | quote _ => 1
  | mark text => text.length
  | strange => 1

/-- A word that may be a name. -/
def isName : Token → Bool
  | word text => !isReserved text
  | _ => false

/-- What an expression may start with. -/
def startsExpression : Token → Bool
  | word text =>
    !isReserved text || ["class", "delete", "false", "function", "import", "new", "null", "super",
      "this", "true", "typeof", "void"].contains text
  | hidden => true
  | number => true
  | quote _ => true
  | mark text =>
    ["(", "[", "\x7b", "+", "-", "!", "~", "++", "--", "/", "/=", "<", "`", "@"].contains text
  | finish => false
  | strange => false

/-- What goes on with an operand and cannot start a statement. -/
def onlyGoesOn : Token → Bool
  | word text => text == "in" || text == "instanceof"
  | mark text =>
    [".", "?.", ",", "?", "??", "||", "&&", "|", "^", "&", "==", "!=", "===", "!==", ">", "<=",
      ">=", "<<", ">>", ">>>", "*", "%", "**"].contains text
  | _ => false

end Token

/-- The token behind the gap. -/
def Cursor.token (k : Cursor) : Token := Token.ofChars k.skipGap.rest

/-- The place behind that token. -/
def Cursor.behind (k : Cursor) : Cursor := k.skipGap.drop (k.token.lengthIn k.skipGap.rest)

end LetOrConst.JavaScript
