/-
Documents: from a text, by way of a grammar, to a tree that can be judged, or to the reason why
there is none. A text must not be empty, its grammar tree must show no trace of recovery, and it
must hold no embedded markup.
-/
import LetOrConst.Log
import LetOrConst.Text.Blank
import LetOrConst.Text.Lines
import LetOrConst.Tree.OfGrammar

namespace LetOrConst.Document

/-- A grammar turns any text into a tree, faulty texts included. -/
abbrev Grammar := String → LetOrConst.Grammar.Node

/-- A text that does not parse: what is wrong, where, counted from one and the column in bytes, and
the line it stands on. -/
structure Malformed where
  message : String
  line : Nat
  column : Nat
  text : String
  identity : Option String
  deriving DecidableEq, Repr

/-- Why a text has no tree. -/
inductive Error where
  | empty (identity : Option String)
  | malformed (e : Malformed)
  deriving DecidableEq, Repr

/-- The name of a document, when it has one that is not empty. -/
def properIdentity? (identity : Option String) : Option String := identity.filter (· ≠ "")

/-- How a document is called in logs. -/
def displayName (identity : Option String) : String := (properIdentity? identity).getD "<text>"

/-- The wording of an error. -/
def Error.message : Error → String
  | empty identity =>
    match properIdentity? identity with
    | some name => s!"The document is empty ({name})."
    | none => "The document is empty."
  | malformed e => e.message

/-- How much of a faulty text is quoted. -/
def quotedLength : Nat := 40

/-- The start of a faulty text that is quoted: what stands on its first line once blanks around it
are dropped, and no more than `quotedLength` characters of that. -/
def offendingToken (text : List Char) : List Char :=
  ((Text.lines (Text.trim text)).headD []).take quotedLength

/-- The complaint about the node where recovery set in. -/
def faultMessage (bytes : List UInt8) (n : LetOrConst.Grammar.Node) : String :=
  if n.missing then s!"Missing '{n.type}'"
  else
    match offendingToken (n.text bytes).toList with
    | [] => "Unexpected end of input"
    | token => s!"Unexpected {Text.quoted (String.ofList token)}"

/-- The complaint about embedded markup. -/
def markupMessage : String := "JSX is not supported"

/-- The error at a node. -/
def malformedAt (source : String) (identity : Option String) (n : LetOrConst.Grammar.Node)
    (message : String) : Malformed :=
  ⟨message, n.point.row + 1, n.point.column + 1, Text.lineAt source n.point.row, identity⟩

/-- The error of a grammar tree, if it has one. Traces of recovery come before embedded markup. -/
def malformed? (source : String) (identity : Option String) (root : LetOrConst.Grammar.Node) :
    Option Malformed :=
  match root.firstFault? with
  | some n => some (malformedAt source identity n (faultMessage (Text.Utf8.encode source.toList) n))
  | none => root.firstMarkup?.map fun n => malformedAt source identity n markupMessage

/-- The tree of a document. -/
def parse (grammar : Grammar) (source : Option String) (identity : Option String := none) :
    Except Error Tree.Node :=
  match source.filter (· ≠ "") with
  | none => .error (.empty identity)
  | some text =>
    match malformed? text identity (grammar text) with
    | some e => .error (.malformed e)
    | none => .ok (Tree.ofGrammar (Text.Utf8.encode text.toList) (grammar text))

/-! ## What is noted on the way -/

/-- The spelling of a keyword that is none, where a node has one. -/
def unknownKeyword? (bytes : List UInt8) (n : LetOrConst.Grammar.Node) : Option String :=
  if n.type = "lexical_declaration" ∨ n.type = "for_in_statement" then
    (Tree.keywordText? n bytes).filter fun text => (Tree.Keyword.ofText? text).isNone
  else none

mutual

/-- Unknown keywords in and below a node, those below it first. -/
def unknownKeywords (bytes : List UInt8) : LetOrConst.Grammar.Node → List String
  | ⟨type, point, span, named, missing, field, children⟩ =>
    unknownKeywordsBelow bytes children ++
      (unknownKeyword? bytes ⟨type, point, span, named, missing, field, children⟩).toList

/-- Unknown keywords in and below the visible ones of some nodes. -/
def unknownKeywordsBelow (bytes : List UInt8) : List LetOrConst.Grammar.Node → List String
  | [] => []
  | n :: rest =>
    (if n.isVisible then unknownKeywords bytes n else []) ++ unknownKeywordsBelow bytes rest

end

/-- Events while a text is parsed. -/
def events (grammar : Grammar) (source : Option String) (identity : Option String) :
    List Log.Event :=
  match parse grammar source identity with
  | .error (.empty _) => []
  | .error (.malformed e) => [.malformed (displayName identity) e.line e.column e.message]
  | .ok tree =>
    let text := source.getD ""
    (unknownKeywords (Text.Utf8.encode text.toList) (grammar text)).map .unknownKeyword ++
      [.parsed (displayName identity) tree.children.length]

end LetOrConst.Document
