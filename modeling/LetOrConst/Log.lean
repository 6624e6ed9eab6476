/-
What is noted while documents are read and judged. Every event has a level, belongs to one part of
the program, and has one wording.
-/
import LetOrConst.Issue

namespace LetOrConst.Log

/-- How much an event matters. -/
inductive Level where
  | debug
  | error
  deriving DecidableEq, Repr

namespace Level

/-- The name of a level. -/
def name : Level → String
  | debug => "DEBUG"
  | error => "ERROR"

/-- The weight of a level against which thresholds are set. -/
def severity : Level → Nat
  | debug => 10
  | error => 40

end Level

/-- The part of the program that an event belongs to. -/
inductive Channel where
  | reading
  | scopes
  | declarations
  | findings
  | scanning
  deriving DecidableEq, Repr

/-- The name of a channel. -/
def Channel.name : Channel → String
  | reading => "code_analyzer.syntaxer.source_parser"
  | scopes => "code_analyzer.syntaxer.scope"
  | declarations => "code_analyzer.syntaxer.checks.declarations"
  | findings => "code_analyzer.syntaxer.declaration_finder"
  | scanning => "code_analyzer.scanner"

/-- Something worth noting. -/
inductive Event where
  /-- A file is about to be read. -/
  | opening (path : String)
  /-- A declaration has a keyword that is none. -/
  | unknownKeyword (text : String)
  /-- A document parsed, with its number of top-level statements. -/
  | parsed (document : String) (statements : Nat)
  /-- A document did not parse. -/
  | malformed (document : String) (line column : Nat) (message : String)
  /-- A declaration without a keyword binds nothing. -/
  | keywordMissing (line : Int)
  /-- A `var` declaration has no target that is a plain name. -/
  | noPlainNames (line : Int)
  /-- A finding was made. -/
  | found (issue : Issue)
  /-- There was nothing to scan. -/
  | nothingToScan (document : String)
  /-- A scan ended because the document did not parse. -/
  | scanFailed (document : String) (line column : Nat) (message : String)
  /-- A scan made so many findings. -/
  | counted (count : Nat) (document : String)
  /-- A finding is about to be shown. -/
  | showing (document : String) (issue : Issue)
  /-- The document could not be read. -/
  | unreadable (document : String) (reason : String)
  deriving DecidableEq, Repr

namespace Event

/-- The level of an event. -/
def level : Event → Level
  | scanFailed .. | unreadable .. => .error
  | _ => .debug

/-- The part of the program that an event belongs to. -/
def channel : Event → Channel
  | opening .. | unknownKeyword .. | parsed .. | malformed .. => .reading
  | keywordMissing .. => .scopes
  | noPlainNames .. => .declarations
  | found .. => .findings
  | nothingToScan .. | scanFailed .. | counted .. | showing .. | unreadable .. => .scanning

/-- The wording of an event. -/
def message : Event → String
  | opening path => s!"parse sourcefile {path}"
  | unknownKeyword text => s!"unknown declaration keyword {Text.quoted text}"
  | parsed document statements => s!"parsed {document}: {statements} top-level statements"
  | malformed document line column message =>
    s!"syntax error in {document} at {line}:{column}: {message}"
  | keywordMissing line => s!"declaration at line {line} has no binding kind; skipped"
  | noPlainNames line => s!"var declaration at line {line} declares no plain identifiers"
  | found issue => s!"declaration: {issue.describe}"
  | nothingToScan document => s!"empty document {document}"
  | scanFailed document line column message =>
    s!"Error parsing {document}: {message} (line {line}, column {column})"
  | counted count document => s!"detected {count} issues in {document}"
  | showing document issue => s!"{document}: {issue.render}"
  | unreadable document reason => s!"Cannot read {document}: {reason}"

/-- An event as one entry of a log. -/
def render (e : Event) : String := s!"{e.level.name} {e.channel.name}: {e.message}"

end Event
end LetOrConst.Log
