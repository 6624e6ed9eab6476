/-
A scan: read a document, parse it, and hand what is found to a presenter. An empty document and
one that does not parse end the scan with a remark and no findings; a document that cannot be read
ends it without a word to the presenter.
-/
import LetOrConst.Document
import LetOrConst.Files
import LetOrConst.Report.Presenter
import LetOrConst.Settings

namespace LetOrConst

/-- Where a document comes from: its name, and its text or why there is none. -/
structure Source where
  identity : String
  content : Except ReadError (Option String)

namespace Source

/-- A document in a file. -/
def ofFile (storage : Storage) (path : Path) : Source where
  identity := path.toText
  content := do return some (← readText (← storage path))

/-- A document given as text. -/
def ofText (text : Option String) (identity : String := "<text>") : Source where
  identity := identity
  content := .ok text

/-- The name of what is read from the standard input. -/
def inputName : String := "<stdin>"

/-- A document read from the standard input: a text, or why it could not be read. -/
def ofInput (content : Except ReadError String) : Source where
  identity := inputName
  content := content.map some

end Source

namespace Scan

/-- How a scan ended. -/
inductive Status where
  | ok
  | empty
  | failed
  deriving DecidableEq, Repr

/-- The name of a status. -/
def Status.name : Status → String
  | ok => "ok"
  | empty => "empty"
  | failed => "failed"

/-- The outcome of a scan. -/
structure Result where
  identity : String
  status : Status
  issues : List Issue := []
  error : Option Document.Error := none
  deriving DecidableEq, Repr

/-- One thing that happens during a scan. -/
inductive Step where
  | note (e : Log.Event)
  | tell (c : Report.Call)
  deriving DecidableEq, Repr

/-- Why a scan has no outcome. -/
inductive Error where
  | unreadable (e : ReadError)
  | scopes (f : Scope.Fault)
  deriving DecidableEq, Repr

/-- What is said about an empty document. -/
def emptyMessage : String := "The active document is empty."

/-- What is said about a document that does not parse. -/
def failedMessage : String :=
  "Error occurred during AST analysis. Check the console for details."

/-- What is said at the end. -/
def completeMessage : String := "AST analysis complete."

/-- The outcome for a text, and what happens after it is parsed. -/
def conclude (identity : String) (resolution : Resolution) :
    Except Document.Error Tree.Node → Except Error (Result × List Step)
  | .error (.empty i) =>
    .ok ({ identity, status := .empty, error := some (.empty i) },
      [.note (.nothingToScan identity), .tell (.error emptyMessage), .tell .complete])
  | .error (.malformed e) =>
    .ok ({ identity, status := .failed, error := some (.malformed e) },
      [.note (.scanFailed identity e.line e.column e.message), .tell (.error failedMessage),
        .tell .complete])
  | .ok tree =>
    match Advice.issues resolution tree with
    | .error f => .error (.scopes f)
    | .ok issues =>
      .ok ({ identity, status := .ok, issues },
        (Advice.events resolution tree).map .note ++
        [.note (.counted issues.length identity)] ++
        issues.flatMap (fun i => [.note (.showing identity i), .tell (.issue i)]) ++
        [.tell (.info completeMessage), .tell .complete])

/-- Scans a document: the outcome, and everything that happens on the way. -/
def run (grammar : Document.Grammar) (source : Source) (settings : Settings := {}) :
    Except Error (Result × List Step) :=
  match source.content with
  | .error e => .error (.unreadable e)
  | .ok text => do
    let parsed := Document.parse grammar text source.identity
    let (result, steps) ← conclude source.identity settings.resolution parsed
    return (result, (Document.events grammar text source.identity).map .note ++ steps)

end Scan
end LetOrConst
