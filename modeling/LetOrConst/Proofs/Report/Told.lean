/-
A JSON report says what was told. Calls add to the draft in their order (`after_json`), and only a call that
completes the report writes: one text in ASCII, with a line end, which is read back as the report of
everything told so far.
-/
import LetOrConst.Proofs.Report.RoundTrip
import LetOrConst.Report.Presenter

namespace LetOrConst.Report

namespace Call

/-- The issue that is told of. -/
def issue? : Call → Option Issue
  | .issue i => some i
  | _ => none

/-- The remark that is told of. -/
def info? : Call → Option String
  | .info message => some message
  | _ => none

/-- The error that is told of. -/
def error? : Call → Option String
  | .error message => some message
  | _ => none

end Call

/-- A presenter after some calls. -/
def Presenter.after (p : Presenter) (calls : List Call) : Presenter := calls.foldl (fun p call => (p.tell call).1) p

theorem Presenter.after_json (d : Draft) (calls : List Call) :
    (Presenter.json d).after calls = .json
      { document := d.document
        issues := d.issues ++ calls.filterMap Call.issue?
        messages := d.messages ++ calls.filterMap Call.info?
        errors := d.errors ++ calls.filterMap Call.error? } := by
  induction calls generalizing d with
  | nil => simp [Presenter.after]
  | cons call calls ih =>
    have hstep : (Presenter.json d).after (call :: calls) = (Presenter.json (d.tell call).1).after calls := rfl
    rw [hstep, ih]
    cases call <;> simp [Draft.tell, List.filterMap_cons, Call.issue?, Call.info?, Call.error?]

/-- What is written in answer to some calls, one after another. -/
def Presenter.answers : Presenter → List Call → List Output
  | _, [] => []
  | p, call :: rest => (p.tell call).2 :: (p.tell call).1.answers rest

theorem Presenter.answers_append (p : Presenter) (calls more : List Call) :
    p.answers (calls ++ more) = p.answers calls ++ (p.after calls).answers more := by
  induction calls generalizing p with
  | nil => rfl
  | cons call calls ih =>
    rw [List.cons_append, Presenter.answers, Presenter.answers, ih, List.cons_append]
    rfl

theorem Presenter.answers_console (calls : List Call) : Presenter.console.answers calls = calls.map Report.console := by
  induction calls with
  | nil => rfl
  | cons call calls ih => rw [Presenter.answers, List.map_cons, ← ih]; rfl

/-- Nothing is written before the report is complete. -/
theorem Presenter.answers_json {d : Draft} {calls : List Call} (h : .complete ∉ calls) :
    (Presenter.json d).answers calls = calls.map fun _ => {} := by
  induction calls generalizing d with
  | nil => rfl
  | cons call calls ih =>
    have hrest : .complete ∉ calls := fun hmem => h (List.mem_cons_of_mem _ hmem)
    have hsilent : ((Presenter.json d).tell call).2 = {} := by
      cases call with
      | complete => exact absurd List.mem_cons_self h
      | issue i => rfl
      | info message => rfl
      | error message => rfl
    rw [Presenter.answers, hsilent, List.map_cons]
    exact congrArg _ (ih hrest)

/-! ## The report as it is read -/

/-- An issue as it is read. -/
def issueValue (i : Issue) : Value :=
  .object [("kind", .string i.kind), ("line", .number i.line 0), ("col", .number i.column 0),
    ("message", .string i.message)]

/-- A report as it is read. -/
def reportValue (document : Option String) (issues : List Issue) (messages errors : List String) : Value :=
  .object [("document", document.elim .null .string), ("issues", .array (issues.map issueValue)),
    ("messages", .array (messages.map .string)), ("errors", .array (errors.map .string))]

theorem elementValues_eq (xs : List Json) : Json.elementValues xs = xs.map Json.value := by
  induction xs with
  | nil => rfl
  | cons x xs ih => rw [Json.elementValues, ih, List.map_cons]

theorem value_toJson (d : Draft) : d.toJson.value = reportValue d.document d.issues d.messages d.errors := by
  have hstrings : ∀ texts : List String, (Json.arr (texts.map .str)).value = .array (texts.map .string) := by
    intro texts
    rw [Json.value, elementValues_eq, List.map_map]
    rfl
  have hissues : (Json.arr (d.issues.map Draft.issueJson)).value = .array (d.issues.map issueValue) := by
    rw [Json.value, elementValues_eq, List.map_map]
    rfl
  unfold reportValue
  rw [← hissues, ← hstrings, ← hstrings]
  obtain ⟨document, issues, messages, errors⟩ := d
  cases document <;> rfl

/-- What is written when a draft is complete is read back as the report. -/
theorem decode?_complete (d : Draft) :
    decode? (d.tell .complete).2.out = some (reportValue d.document d.issues d.messages d.errors) := by
  rw [← value_toJson]
  exact Json.decode?_render d.toJson

/-- Nothing is written until the report is complete. Then it is written whole, in ASCII and with a line
end, and is read back as the report of all that has been told, in its order. -/
theorem tell_json (identity : Option String) (calls : List Call) (call : Call) :
    let answer := (((Presenter.json { document := identity }).after calls).tell call).2
    match call with
    | .complete => ∃ body, answer = { out := body ++ "\n" } ∧ Json.IsAscii answer.out.toList ∧
        decode? answer.out = some (reportValue identity (calls.filterMap Call.issue?) (calls.filterMap Call.info?)
          (calls.filterMap Call.error?))
    | _ => answer = {} := by
  intro answer
  have hanswer : answer = (Draft.tell ⟨identity, calls.filterMap Call.issue?, calls.filterMap Call.info?,
      calls.filterMap Call.error?⟩ call).2 := by
    show (((Presenter.json { document := identity }).after calls).tell call).2 = _
    rw [Presenter.after_json]
    rfl
  rw [hanswer]
  cases call with
  | complete =>
    refine ⟨_, rfl, ?_, decode?_complete _⟩
    show Json.IsAscii (_ ++ "\n").toList
    rw [String.toList_append, Json.isAscii_append, Json.render, String.toList_ofList]
    exact ⟨Json.isAscii_renderAt 0 _, by decide⟩
  | issue i => rfl
  | info message => rfl
  | error message => rfl

end LetOrConst.Report
