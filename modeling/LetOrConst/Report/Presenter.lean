/-
Showing the results of a scan. A presenter is told of issues, remarks and errors and at last that
all is said. On a console each is written as it comes; a JSON report is kept back and written as a
whole, with everything told so far, whenever it is called complete.
-/
import LetOrConst.Issue
import LetOrConst.Report.Json

namespace LetOrConst.Report

/-- What a presenter is told. -/
inductive Call where
  | issue (i : Issue)
  | info (message : String)
  | error (message : String)
  | complete
  deriving DecidableEq, Repr

/-- What is written in answer to a call, to either stream. -/
structure Output where
  out : String := ""
  err : String := ""
  deriving DecidableEq, Repr, Inhabited

/-- The answer of a console. -/
def console : Call → Output
  | .issue i => { out := i.render ++ "\n" }
  | .info message => { out := message ++ "\n" }
  | .error message => { err := s!"error: {message}\n" }
  | .complete => {}

/-- A JSON report in the making. -/
structure Draft where
  document : Option String
  issues : List Issue := []
  messages : List String := []
  errors : List String := []
  deriving DecidableEq, Repr, Inhabited

namespace Draft

/-- An issue as a JSON object. -/
def issueJson (i : Issue) : Json :=
  .obj [("kind", .str i.kind), ("line", .int i.line), ("col", .int i.column),
    ("message", .str i.message)]

/-- The report as it stands. -/
def toJson (d : Draft) : Json :=
  .obj [("document", match d.document with | some name => .str name | none => .null),
    ("issues", .arr (d.issues.map issueJson)),
    ("messages", .arr (d.messages.map .str)),
    ("errors", .arr (d.errors.map .str))]

/-- The report after a call, and what is written in answer. -/
def tell (d : Draft) : Call → Draft × Output
  | .issue i => ({ d with issues := d.issues ++ [i] }, {})
  | .info message => ({ d with messages := d.messages ++ [message] }, {})
  | .error message => ({ d with errors := d.errors ++ [message] }, {})
  | .complete => (d, { out := d.toJson.render ++ "\n" })

end Draft

/-- A presenter. -/
inductive Presenter where
  | console
  | json (draft : Draft)
  deriving DecidableEq, Repr

/-- The presenter after a call, and what is written in answer. -/
def Presenter.tell : Presenter → Call → Presenter × Output
  | console, call => (console, Report.console call)
  | json draft, call => (json (draft.tell call).1, (draft.tell call).2)

end LetOrConst.Report
