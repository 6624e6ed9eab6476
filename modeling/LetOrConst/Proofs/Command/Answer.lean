/-
One answer for one text. What a text comes to (`Comes`) is decided by the text alone, apart from the issues,
which depend on how assignments are matched. However the text is delivered and whatever else is asked for, a
run ends with the code that belongs to it and shows the same issues, remarks and errors: as one JSON report,
or as lines on a console.

A file delivers a text by its bytes (`FileText`), the input by what its stream makes of them (`Delivery`). A
stream in UTF-8 delivers the text of a file when it changes line ends as reading a file does, or when there is
no carriage return to change; else the two can differ (`run_input_rows`).
-/
import LetOrConst.Proofs.Advice.Positions
import LetOrConst.Proofs.Command.Arguments
import LetOrConst.Proofs.Document.Reject
import LetOrConst.Proofs.Report.Told
import LetOrConst.Proofs.Text.Lines
import LetOrConst.Proofs.Text.Utf8

namespace LetOrConst.Command

open LetOrConst.Report

/-! ## What is shown -/

/-- What a run has to show. -/
structure Shown where
  issues : List Issue := []
  messages : List String := []
  errors : List String := []

namespace Shown

/-- Everything that is said before a report is complete. -/
def told (s : Shown) : List Call := s.issues.map .issue ++ (s.messages.map .info ++ s.errors.map .error)

/-- The calls that show it. -/
def calls (s : Shown) : List Call := s.told ++ [.complete]

variable (s : Shown)

theorem issues_told : s.told.filterMap Call.issue? = s.issues := by
  simp [told, List.filterMap_append, List.filterMap_map, Function.comp_def, Call.issue?]

theorem messages_told : s.told.filterMap Call.info? = s.messages := by
  simp [told, List.filterMap_append, List.filterMap_map, Function.comp_def, Call.info?]

theorem errors_told : s.told.filterMap Call.error? = s.errors := by
  simp [told, List.filterMap_append, List.filterMap_map, Function.comp_def, Call.error?]

theorem complete_notMem_told : .complete ∉ s.told := by
  simp [told]

variable {s}

theorem calls_injective {s' : Shown} (h : s.calls = s'.calls) : s = s' := by
  have htold : s.told = s'.told := List.append_cancel_right h
  have hissues : s.issues = s'.issues := by rw [← issues_told, htold, issues_told]
  have hmessages : s.messages = s'.messages := by rw [← messages_told, htold, messages_told]
  have herrors : s.errors = s'.errors := by rw [← errors_told, htold, errors_told]
  cases s
  cases s'
  cases hissues
  cases hmessages
  cases herrors
  rfl

end Shown

/-! ## What is written -/

/-- What an effect adds to the output. -/
def Effect.outText : Effect → String
  | .out text => text
  | _ => ""

/-- What a presenter puts on the error stream; the log is not its business. -/
def Effect.err? : Effect → Option String
  | .err text => some text
  | _ => none

theorem out_eq (o : Outcome) : o.out = String.join (o.effects.map Effect.outText) := by
  refine congrArg (fun f => String.join (o.effects.map f)) (funext fun e => ?_)
  cases e <;> rfl

/-- What a run's presenter puts on the error stream, piece by piece. -/
def Outcome.errors (o : Outcome) : List String := o.effects.filterMap Effect.err?

/-- The call that a step of a scan makes. -/
def call? : Scan.Step → Option Call
  | .tell call => some call
  | .note _ => none

theorem filterMap_tell (call : Call) (steps : List Scan.Step) :
    (.tell call :: steps).filterMap call? = call :: steps.filterMap call? := rfl

theorem outText_logEffect (threshold : Threshold) (e : Log.Event) :
    String.join ((logEffect threshold e).map Effect.outText) = "" := by
  unfold logEffect
  split <;> rfl

theorem err?_logEffect (threshold : Threshold) (e : Log.Event) :
    (logEffect threshold e).filterMap Effect.err? = [] := by
  unfold logEffect
  split <;> rfl

theorem outText_outputEffects (o : Output) : String.join ((outputEffects o).map Effect.outText) = o.out := by
  unfold outputEffects
  by_cases hout : o.out = "" <;> by_cases herr : o.err = "" <;> simp [hout, herr, Effect.outText]

theorem err?_outputEffects (o : Output) : (outputEffects o).filterMap Effect.err? = [o.err].filter (· ≠ "") := by
  unfold outputEffects
  by_cases hout : o.out = "" <;> by_cases herr : o.err = "" <;> simp [hout, herr, Effect.err?, List.filterMap_cons]

-- The log is written between the calls, but neither to the output nor by the presenter: what is left of the
-- steps are the presenter's answers.
theorem outText_stepEffects (threshold : Threshold) (p : Presenter) (steps : List Scan.Step) :
    String.join ((stepEffects threshold p steps).map Effect.outText) =
      String.join ((p.answers (steps.filterMap call?)).map (·.out)) := by
  induction steps generalizing p with
  | nil => rfl
  | cons step steps ih =>
    cases step with
    | note e =>
      rw [stepEffects, List.map_append, String.join_append, outText_logEffect, ih, String.empty_append]
      rfl
    | tell call =>
      rw [stepEffects, List.map_append, String.join_append, outText_outputEffects, ih, filterMap_tell,
        Presenter.answers, List.map_cons, String.join_cons]

theorem err?_stepEffects (threshold : Threshold) (p : Presenter) (steps : List Scan.Step) :
    (stepEffects threshold p steps).filterMap Effect.err? =
      ((p.answers (steps.filterMap call?)).map (·.err)).filter (· ≠ "") := by
  induction steps generalizing p with
  | nil => rfl
  | cons step steps ih =>
    cases step with
    | note e =>
      rw [stepEffects, List.filterMap_append, err?_logEffect, ih, List.nil_append]
      rfl
    | tell call =>
      rw [stepEffects, List.filterMap_append, err?_outputEffects, ih, filterMap_tell, Presenter.answers,
        List.map_cons, ← List.filter_append, List.singleton_append]

/-- What is written to show something under a name: as one JSON report, or as lines for issues and remarks and,
on the error stream, for errors. -/
def Shows (format : OutputFormat) (identity : String) (s : Shown) (o : Outcome) : Prop :=
  match format with
  | .json => decode? o.out = some (reportValue (some identity) s.issues s.messages s.errors) ∧ o.errors = []
  | .text => o.out = joinLines (s.issues.map (fun i => s!"Line {i.line}: {i.message}") ++ s.messages) ∧
      o.errors = s.errors.map fun e => s!"error: {e}\n"

theorem join_silent {α : Type} (xs : List α) : String.join (xs.map fun _ => "") = "" := by
  induction xs with
  | nil => rfl
  | cons x xs ih => rw [List.map_cons, String.join_cons, ih, String.empty_append]

theorem filter_silent {α : Type} (xs : List α) : (xs.map fun _ => "").filter (· ≠ "") = [] := by
  simp

theorem answers_json_calls (identity : String) (s : Shown) :
    (Presenter.json { document := some identity }).answers s.calls =
      s.told.map (fun _ => ({} : Output)) ++
        [(Draft.tell ⟨some identity, s.issues, s.messages, s.errors⟩ .complete).2] := by
  rw [Shown.calls, Presenter.answers_append, Presenter.answers_json s.complete_notMem_told, Presenter.after_json,
    s.issues_told, s.messages_told, s.errors_told]
  rfl

theorem out_console_calls (s : Shown) : String.join ((s.calls.map console).map (·.out)) =
    joinLines (s.issues.map (fun i => s!"Line {i.line}: {i.message}") ++ s.messages) := by
  have herrors : String.join (s.errors.map ((·.out) ∘ console ∘ Call.error)) = "" := join_silent s.errors
  have hcomplete : String.join ([Call.complete].map ((·.out) ∘ console)) = "" := rfl
  unfold joinLines
  simp only [Shown.calls, Shown.told, List.map_append, List.map_map, String.join_append, herrors, hcomplete,
    String.append_empty]
  rfl

theorem err_console_calls (s : Shown) :
    ((s.calls.map console).map (·.err)).filter (· ≠ "") = s.errors.map fun e => s!"error: {e}\n" := by
  have hissues : (s.issues.map ((·.err) ∘ console ∘ Call.issue)).filter (· ≠ "") = [] := filter_silent s.issues
  have hmessages : (s.messages.map ((·.err) ∘ console ∘ Call.info)).filter (· ≠ "") = [] := filter_silent s.messages
  have hcomplete : ([Call.complete].map ((·.err) ∘ console)).filter (· ≠ "") = [] := rfl
  have herrors : (s.errors.map ((·.err) ∘ console ∘ Call.error)).filter (· ≠ "") =
      s.errors.map ((·.err) ∘ console ∘ Call.error) := by
    rw [List.filter_eq_self]
    intro text htext
    obtain ⟨e, -, rfl⟩ := List.mem_map.1 htext
    simp [console, toString]
  simp only [Shown.calls, Shown.told, List.map_append, List.map_map, List.filter_append, hissues, hmessages, herrors,
    hcomplete, List.nil_append, List.append_nil]
  rfl

/-- A presenter for a format shows what it is called with. -/
theorem shows_stepEffects {steps : List Scan.Step} {s : Shown} (hcalls : steps.filterMap call? = s.calls) (code : Nat)
    (threshold : Threshold) (format : OutputFormat) (identity : String) :
    Shows format identity s { code, effects := stepEffects threshold (presenterFor format identity) steps } := by
  unfold Shows Outcome.errors
  rw [out_eq, outText_stepEffects, err?_stepEffects, hcalls]
  cases format with
  | json =>
    -- The draft is silent up to the last call, which writes all that it was told.
    have hsilent : String.join (s.told.map ((·.out) ∘ fun _ => ({} : Output))) = "" := join_silent s.told
    have herr : (s.told.map ((·.err) ∘ fun _ => ({} : Output))).filter (· ≠ "") = [] := filter_silent s.told
    rw [presenterFor, answers_json_calls, List.map_append, List.map_append, String.join_append, List.filter_append,
      List.map_map, List.map_map, hsilent, herr, String.empty_append, List.map_singleton, String.join_cons,
      String.join_nil, String.append_empty]
    exact ⟨decode?_complete _, rfl⟩
  | text =>
    rw [presenterFor, Presenter.answers_console]
    exact ⟨out_console_calls s, err_console_calls s⟩

/-! ## What a text comes to -/

/-- What a text comes to when assignments are matched in some way, or what comes of it that there is none: the
code that a run ends with, and what there is to show. -/
inductive Comes (grammar : Document.Grammar) (text? : Option String) (mode : Resolution) : Nat → Shown → Prop where
  /-- There is no text. -/
  | unreadable (h : text? = none) : Comes grammar text? mode 3 {}
  /-- There is nothing in it. -/
  | empty (h : text? = some "") : Comes grammar text? mode 2 { errors := [Scan.emptyMessage] }
  /-- It does not parse. -/
  | malformed {text : String} (htext : text? = some text)
      (h : ∀ identity, ∃ e, Document.parse grammar (some text) identity = .error (.malformed e)) :
      Comes grammar text? mode 1 { errors := [Scan.failedMessage] }
  /-- It parses, and these are the issues of its tree. -/
  | parsed {text : String} {tree : Tree.Node} {issues : List Issue} (htext : text? = some text)
      (h : ∀ identity, Document.parse grammar (some text) identity = .ok tree)
      (hissues : Advice.issues mode tree = .ok issues) :
      Comes grammar text? mode 0 { issues, messages := [Scan.completeMessage] }

-- Whether there is an error does not depend on the name of the document, only what it says does.
theorem parse_cases (grammar : Document.Grammar) {text : String} (hne : text ≠ "") :
    (∀ identity, ∃ e, Document.parse grammar (some text) identity = .error (.malformed e)) ∨
      ∀ identity, Document.parse grammar (some text) identity =
        .ok (Tree.ofGrammar (Text.Utf8.encode text.toList) (grammar text)) := by
  have hparse := fun identity => Document.parse_text grammar identity hne
  unfold Document.malformed? at hparse
  cases hfault : (grammar text).firstFault? with
  | some n => exact .inl fun identity => ⟨_, by rw [hparse, hfault]⟩
  | none =>
    cases hmarkup : (grammar text).firstMarkup? with
    | some n => exact .inl fun identity => ⟨_, by rw [hparse, hfault, hmarkup]; rfl⟩
    | none => exact .inr fun identity => by rw [hparse, hfault, hmarkup]; rfl

/-- A grammar whose trees are programs at the root, and nowhere else. -/
def RootsOnly (grammar : Document.Grammar) : Prop :=
  ∀ text, (grammar text).type = "program" ∧ ∀ m ∈ (grammar text).walk.tail, m.type ≠ "program"

theorem issues_ofGrammar {grammar : Document.Grammar} (h : RootsOnly grammar) (bytes : List UInt8) (text : String)
    (mode : Resolution) : ∃ issues, Advice.issues mode (Tree.ofGrammar bytes (grammar text)) = .ok issues := by
  cases mode with
  | byName => exact ⟨_, rfl⟩
  | byScope =>
    obtain ⟨issues, hissues, -⟩ := Advice.positions_byScope (Advice.soleProgram_ofGrammar bytes (h text).1 (h text).2)
    exact ⟨issues, hissues⟩

/-- Every text comes to something, and its code is one for all ways to match. -/
theorem exists_comes {grammar : Document.Grammar} (hgrammar : RootsOnly grammar) (text? : Option String) :
    ∃ code, ∀ mode, ∃ shown, Comes grammar text? mode code shown := by
  cases text? with
  | none => exact ⟨3, fun mode => ⟨_, .unreadable rfl⟩⟩
  | some text =>
    by_cases hempty : text = ""
    · exact ⟨2, fun mode => ⟨_, .empty (congrArg some hempty)⟩⟩
    · rcases parse_cases grammar hempty with h | h
      · exact ⟨1, fun mode => ⟨_, .malformed rfl h⟩⟩
      · refine ⟨0, fun mode => ?_⟩
        obtain ⟨issues, hissues⟩ := issues_ofGrammar hgrammar _ _ mode
        exact ⟨_, .parsed rfl h hissues⟩

/-! ## Runs -/

/-- How a scan ended, with what it showed. -/
inductive Scanned (grammar : Document.Grammar) (source : Source) (settings : Settings) : Nat → Shown → Prop where
  | unread {e : ReadError} (h : Scan.run grammar source settings = .error (.unreadable e)) (expected : e ≠ .nullByte) :
      Scanned grammar source settings 3 {}
  | ended {result : Scan.Result} {steps : List Scan.Step} {shown : Shown}
      (h : Scan.run grammar source settings = .ok (result, steps)) (hcalls : steps.filterMap call? = shown.calls) :
      Scanned grammar source settings (exitCode result.status) shown

section

variable {grammar : Document.Grammar} {source : Source} {settings : Settings} {text? : Option String}
  {mode : Resolution} {code code' : Nat} {shown shown' : Shown}

theorem Scanned.unique (h : Scanned grammar source settings code shown)
    (h' : Scanned grammar source settings code' shown') : code = code' ∧ shown = shown' := by
  cases h with
  | unread h expected =>
    cases h' with
    | unread h' expected' => exact ⟨rfl, rfl⟩
    | ended h' hcalls' => rw [h] at h'; cases h'
  | ended h hcalls =>
    cases h' with
    | unread h' expected' => rw [h] at h'; cases h'
    | ended h' hcalls' =>
      rw [h] at h'
      cases h'
      exact ⟨rfl, Shown.calls_injective (hcalls.symm.trans hcalls')⟩

theorem filterMap_note (events : List Log.Event) (steps : List Scan.Step) :
    (events.map Scan.Step.note ++ steps).filterMap call? = steps.filterMap call? := by
  simp [List.filterMap_append, List.filterMap_map, call?]

theorem filterMap_showing (identity : String) (issues : List Issue) (steps : List Scan.Step) :
    (issues.flatMap (fun i => [Scan.Step.note (.showing identity i), .tell (.issue i)]) ++ steps).filterMap call? =
      issues.map .issue ++ steps.filterMap call? := by
  induction issues with
  | nil => rfl
  | cons i issues ih =>
    rw [List.flatMap_cons, List.append_assoc]
    exact congrArg (Call.issue i :: ·) ih

theorem scanned_of_conclude {text : String} {result : Scan.Result} {steps : List Scan.Step}
    (hcontent : source.content = .ok (some text))
    (h : Scan.conclude source.identity settings.resolution (Document.parse grammar (some text) source.identity) =
      .ok (result, steps)) (hcode : exitCode result.status = code) (hcalls : steps.filterMap call? = shown.calls) :
    Scanned grammar source settings code shown := by
  have hrun : Scan.run grammar source settings =
      .ok (result, (Document.events grammar (some text) source.identity).map .note ++ steps) := by
    simp only [Scan.run, hcontent, h]
    rfl
  subst hcode
  exact .ended hrun (by rw [filterMap_note, hcalls])

/-- The source delivers the text, or gives a reason to expect why there is none. -/
def Yields (source : Source) (text? : Option String) : Prop :=
  match text? with
  | some text => source.content = .ok (some text)
  | none => ∃ e, source.content = .error e ∧ e ≠ .nullByte

/-- A scan of a text ends as the text comes to. -/
theorem Comes.scanned (h : Comes grammar text? settings.resolution code shown) (hyields : Yields source text?) :
    Scanned grammar source settings code shown := by
  cases h with
  | unreadable h =>
    subst h
    obtain ⟨e, hcontent, expected⟩ := hyields
    have hrun : Scan.run grammar source settings = .error (.unreadable e) := by
      rw [Scan.run, hcontent]
    exact .unread hrun expected
  | empty h =>
    subst h
    have hparse := Document.parse_empty grammar source.identity (.inr rfl)
    exact scanned_of_conclude hyields (by rw [hparse]; rfl) rfl rfl
  | malformed htext h =>
    subst htext
    obtain ⟨e, he⟩ := h source.identity
    exact scanned_of_conclude hyields (by rw [he]; rfl) rfl rfl
  | @parsed text tree issues htext h hissues =>
    subst htext
    refine scanned_of_conclude hyields (by rw [h, Scan.conclude, hissues]) rfl ?_
    rw [List.append_assoc, List.append_assoc, filterMap_note]
    exact (filterMap_showing source.identity issues _).trans (by simp [Shown.calls, Shown.told, call?])

theorem exists_yields (text? : Option String) : ∃ source, Yields source text? := by
  cases text? with
  | none => exact ⟨⟨"", .error (.missing "")⟩, _, rfl, by simp⟩
  | some text => exact ⟨.ofText (some text), rfl⟩

theorem Comes.unique (h : Comes grammar text? mode code shown) (h' : Comes grammar text? mode code' shown') :
    code = code' ∧ shown = shown' := by
  -- Both are what the same scan ends with.
  obtain ⟨source, hyields⟩ := exists_yields text?
  have hscan : Scanned grammar source { resolution := mode } code shown := h.scanned hyields
  exact hscan.unique (h'.scanned hyields)

/-- The end of a run that gives an answer. -/
structure Gives (format : OutputFormat) (identity : String) (code : Nat) (shown : Shown) (o : Outcome) : Prop where
  ends : o.code = code
  late : o.early = false
  caught : o.uncaught = none
  silent : code = 3 → o.out = "" ∧ o.errors = []
  shows : code ≠ 3 → Shows format identity shown o

theorem scan_of_unread {e : ReadError} (h : Scan.run grammar source settings = .error (.unreadable e))
    (expected : e ≠ .nullByte) : scan grammar source settings =
      { code := 3, effects := logEffect settings.threshold (.unreadable source.identity e.message) } := by
  rw [scan, h]
  cases e with
  | nullByte => exact absurd rfl expected
  | _ => rfl

theorem Scanned.gives (h : Scanned grammar source settings code shown) :
    Gives settings.format source.identity code shown (scan grammar source settings) := by
  cases h with
  | @unread e h expected =>
    rw [scan_of_unread h expected]
    refine ⟨rfl, rfl, rfl, fun _ => ⟨?_, ?_⟩, fun hne => absurd rfl hne⟩
    · rw [out_eq]
      exact outText_logEffect _ _
    · exact err?_logEffect _ _
  | @ended result steps shown h hcalls =>
    have hscan : scan grammar source settings =
        { code := exitCode result.status
          effects := stepEffects settings.threshold (presenterFor settings.format source.identity) steps } := by
      rw [scan, h]
    rw [hscan]
    refine ⟨rfl, rfl, rfl, fun h3 => ?_, fun _ => shows_stepEffects hcalls _ _ _ _⟩
    cases hstatus : result.status <;> rw [hstatus] at h3 <;> cases h3

end

/-! ## What delivers a text -/

/-- The text of a file, if its content is one: it is UTF-8, and all line ends get one spelling. -/
inductive FileText (bytes : List UInt8) : Option String → Prop where
  | decoded {cs : List Char} (h : bytes = Text.Utf8.encode cs) :
      FileText bytes (some (String.ofList (Text.unifyNewlines cs)))
  | undecodable (h : ∀ cs, bytes ≠ Text.Utf8.encode cs) : FileText bytes none

/-- What is delivered under a path, a text or the lack of one, and the name that it gets there. -/
inductive Delivery (inv : Invocation) : (path identity : String) → Option String → Prop where
  /-- The stream of the input makes a text of its bytes. -/
  | input {text : String} (h : inv.decoder inv.input = .text text) : Delivery inv "-" "<stdin>" (some text)
  /-- It fails, in a way that reading can fail. -/
  | failed {e : ReadError} (h : inv.decoder inv.input = .failed e) (expected : e ≠ .nullByte) :
      Delivery inv "-" "<stdin>" none
  /-- There is a file, and this is the text in it. -/
  | file {path : String} {bytes : List UInt8} {text? : Option String} (hpath : path ≠ "-")
      (h : inv.storage (Path.ofString path) = .ok bytes) (htext : FileText bytes text?) :
      Delivery inv path (Path.ofString path).toText text?

theorem exists_fileText (bytes : List UInt8) : ∃ text?, FileText bytes text? := by
  by_cases hvalid : ∃ cs, bytes = Text.Utf8.encode cs
  · obtain ⟨cs, h⟩ := hvalid
    exact ⟨_, .decoded h⟩
  · exact ⟨_, .undecodable fun cs h => hvalid ⟨cs, h⟩⟩

theorem decode_error {bytes : List UInt8} (h : ∀ cs, bytes ≠ Text.Utf8.encode cs) :
    ∃ fault, Text.Utf8.decode bytes = .error fault := by
  cases hdecode : Text.Utf8.decode bytes with
  | ok cs => exact absurd (Text.Utf8.decode_eq_ok_iff.1 hdecode) (h cs)
  | error fault => exact ⟨fault, rfl⟩

theorem FileText.yields {storage : Storage} {path : Path} {bytes : List UInt8} {text? : Option String}
    (h : FileText bytes text?) (hstorage : storage path = .ok bytes) : Yields (.ofFile storage path) text? := by
  have hcontent : (Source.ofFile storage path).content = (readText bytes).map some := by
    show (storage path >>= fun bytes => readText bytes >>= fun text => .ok (some text)) = _
    rw [hstorage]
    show (readText bytes >>= fun text => .ok (some text)) = _
    cases readText bytes <;> rfl
  cases h with
  | decoded h =>
    show (Source.ofFile storage path).content = _
    rw [hcontent, readText, Text.Utf8.decode_eq_ok_iff.2 h]
    rfl
  | undecodable h =>
    obtain ⟨fault, hfault⟩ := decode_error h
    refine ⟨.undecodable fault, ?_, by simp⟩
    rw [hcontent, readText, hfault]
    rfl

/-- What delivers a text is the source that is scanned. -/
theorem Delivery.source {inv : Invocation} {path identity : String} {text? : Option String}
    (h : Delivery inv path identity text?) :
    ∃ source, sourceFor inv path = .ok source ∧ source.identity = identity ∧ Yields source text? := by
  cases h with
  | input h => exact ⟨.ofInput (.ok _), by rw [sourceFor, if_pos rfl, h]; rfl, rfl, rfl⟩
  | failed h expected => exact ⟨.ofInput (.error _), by rw [sourceFor, if_pos rfl, h]; rfl, rfl, _, rfl, expected⟩
  | file hpath h htext => exact ⟨_, by rw [sourceFor, if_neg hpath], rfl, htext.yields h⟩

theorem fileText_decoded_iff {cs : List Char} {text : String} :
    FileText (Text.Utf8.encode cs) (some text) ↔ text = String.ofList (Text.unifyNewlines cs) := by
  constructor
  · intro h
    cases h with
    | decoded h =>
      have hsame := (Text.Utf8.decode_eq_ok_iff.2 h).symm.trans (Text.Utf8.decode_eq_ok_iff.2 rfl)
      cases hsame
      rfl
  · rintro rfl
    exact .decoded rfl

/-- What a stream in UTF-8 delivers, and when that is what a file with the same bytes delivers. -/
structure InUtf8 (inv : Invocation) (m : Manner) : Prop where
  /-- Bytes that decode are the text of their characters. -/
  decoded : ∀ cs, inv.input = Text.Utf8.encode cs → Delivery inv "-" "<stdin>" (some (m.textOf cs))
  /-- Bytes that do not decode are an error, unless they are escaped. -/
  undecodable : (∀ cs, inv.input ≠ Text.Utf8.encode cs) → m.escapes = false → Delivery inv "-" "<stdin>" none
  /-- The text is that of a file exactly if line ends are changed, or there is no carriage return in it. -/
  agrees : ∀ cs, inv.input = Text.Utf8.encode cs →
    (FileText inv.input (some (m.textOf cs)) ↔ m.unifies = true ∨ '\r' ∉ cs)

theorem inUtf8 {inv : Invocation} {m : Manner} (h : inv.decoder = .utf8 m) : InUtf8 inv m where
  decoded cs hinput := by
    refine .input ?_
    rw [h, Decoder.utf8, Text.Utf8.decode_eq_ok_iff.2 hinput]
  undecodable hinput hescapes := by
    obtain ⟨fault, hfault⟩ := decode_error hinput
    refine .failed (e := .undecodable fault) ?_ (by simp)
    rw [h, Decoder.utf8, hfault]
    simp [hescapes]
  agrees cs hinput := by
    rw [hinput, fileText_decoded_iff, Manner.textOf, String.ofList_inj]
    cases m.unifies with
    | true => simp
    | false => simpa using eq_comm.trans Text.unifyNewlines_eq_self_iff

/-! ## The answer -/

/-- What the command does with a text, or the lack of one: there is one code for it, and one thing to show for
each way to match assignments. Every run to which it is delivered gives that answer, whichever of its options
are given. -/
structure Answers (grammar : Document.Grammar) (text? : Option String) (code : Nat) (shown : Resolution → Shown) :
    Prop where
  comes : ∀ mode n s, Comes grammar text? mode n s ↔ n = code ∧ s = shown mode
  runs : ∀ (inv : Invocation) (a : Arguments) (base : Settings) (identity : String),
    readArguments inv.arguments = .ok a → Settings.ofEnvironment inv.environment = .ok base →
    Delivery inv a.path identity text? →
    Gives (a.formatOver base) identity code (shown (a.resolutionOver base)) (run grammar inv)

theorem exists_answers {grammar : Document.Grammar} (hgrammar : RootsOnly grammar) (text? : Option String) :
    ∃ code shown, Answers grammar text? code shown := by
  obtain ⟨code, hcomes⟩ := exists_comes hgrammar text?
  choose shown hshown using hcomes
  refine ⟨code, shown, fun mode n s => ⟨fun h => h.unique (hshown mode), ?_⟩, ?_⟩
  · rintro ⟨rfl, rfl⟩
    exact hshown mode
  · intro inv a base identity harguments henvironment hdelivery
    obtain ⟨threshold, hsettings⟩ := settingsFor_eq (fits_readArguments harguments) henvironment
    obtain ⟨source, hsource, hidentity, hyields⟩ := hdelivery.source
    have hrun : run grammar inv = scan grammar source ⟨a.resolutionOver base, a.formatOver base, threshold⟩ := by
      simp only [run, harguments, hsettings, hsource]
    have hscanned : Scanned grammar source ⟨a.resolutionOver base, a.formatOver base, threshold⟩ code
        (shown (a.resolutionOver base)) := (hshown _).scanned hyields
    rw [hrun, ← hidentity]
    exact hscanned.gives

/-- The command gives one answer to one text, however that is delivered and the findings are displayed. A file
delivers the text of its bytes, and a stream in UTF-8 what its manner makes of them, which is the same unless
there are carriage returns that it keeps or bytes that it escapes. Every option can be given in its full
spelling. -/
theorem run_answers_text {grammar : Document.Grammar} (hgrammar : RootsOnly grammar) :
    (∀ text?, ∃ code shown, Answers grammar text? code shown) ∧
      (∀ (inv : Invocation) (path : String) (bytes : List UInt8), path ≠ "-" →
        inv.storage (Path.ofString path) = .ok bytes →
        ∃ text?, FileText bytes text? ∧ Delivery inv path (Path.ofString path).toText text?) ∧
      (∀ (inv : Invocation) (m : Manner), inv.decoder = .utf8 m → InUtf8 inv m) ∧
      ∀ w : Wish, w.Proper → readArguments w.words = .ok w.arguments ∧
        ∀ base, w.arguments.resolutionOver base = w.resolution.getD base.resolution ∧
          w.arguments.formatOver base = w.format.getD base.format := by
  refine ⟨exists_answers hgrammar, fun inv path bytes hpath h => ?_, fun inv m h => inUtf8 h, fun w hw =>
    ⟨readArguments_words hw, w.over_arguments⟩⟩
  obtain ⟨text?, htext⟩ := exists_fileText bytes
  exact ⟨text?, htext, .file hpath h htext⟩

/-- The same text from a file and from a stream that keeps line ends. -/
theorem run_answers_text_loop :
    let grammar : Document.Grammar := fun _ => Advice.loopTree
    let bytes := Text.Utf8.encode Advice.loopText.toList
    let file := run grammar { arguments := ["--format", "json", "-v", "a.js"], storage := fun _ => .ok bytes }
    let input := run grammar
      { environment := [("CODE_ANALYZER_RESOLUTION", " Scope ")], input := bytes, decoder := .utf8 {} }
    RootsOnly grammar ∧ (∃ shown, Answers grammar (some Advice.loopText) 0 shown ∧
      Gives .json (Path.ofString "a.js").toText 0 (shown .byName) file ∧
      Gives .text "<stdin>" 0 (shown .byScope) input) ∧
      input.out = "Line 1: Consider using 'const' instead of 'var' here.\nLine 1: Consider using 'const' instead of " ++
        "'var' here.\nAST analysis complete.\n" := by
  intro grammar bytes file input
  have hroots : RootsOnly grammar := fun _ => ⟨rfl, by decide +kernel⟩
  obtain ⟨hanswers, -, hutf8, -⟩ := run_answers_text hroots
  obtain ⟨code, shown, hanswers⟩ := hanswers (some Advice.loopText)
  have hplain : '\r' ∉ Advice.loopText.toList := by decide +kernel
  have htext : Manner.textOf {} Advice.loopText.toList = Advice.loopText := String.ofList_toList
  have hutf8 := hutf8
    { environment := [("CODE_ANALYZER_RESOLUTION", " Scope ")], input := bytes, decoder := .utf8 {} } {} rfl
  have hdelivered := hutf8.decoded _ rfl
  have hfiletext := (hutf8.agrees _ rfl).2 (.inr hplain)
  rw [htext] at hdelivered hfiletext
  have hfile := hanswers.runs { arguments := ["--format", "json", "-v", "a.js"], storage := fun _ => .ok bytes }
    { path := "a.js", format := some "json", verbose := true } {} _ (by rfl) (by rfl) (.file (by decide) rfl hfiletext)
  have hinput := hanswers.runs _ {} { resolution := .byScope } _ (by rfl) (by decide +kernel) hdelivered
  have hcode : code = 0 := hinput.ends.symm.trans (by decide +kernel)
  subst hcode
  exact ⟨hroots, ⟨shown, hanswers, hfile, hinput⟩, by decide +kernel⟩

/-! ## Where the input differs from a file -/

/-- The tree of a declaration of one letter. -/
def letterTree (start : Nat) (point : Grammar.Point) : Grammar.Node where
  type := "variable_declaration"
  point := point
  span := ⟨start, start + 6⟩
  children := [
    { type := "var", point := point, span := ⟨start, start + 3⟩, named := false },
    { type := "variable_declarator", point := ⟨point.row, point.column + 4⟩, span := ⟨start + 4, start + 5⟩,
      children := [
        { type := "identifier", point := ⟨point.row, point.column + 4⟩, span := ⟨start + 4, start + 5⟩,
          field := some "name" }] },
    { type := ";", point := ⟨point.row, point.column + 5⟩, span := ⟨start + 5, start + 6⟩, named := false }]

/-- The tree of two such declarations with one character between them, by the place of the second. -/
def lettersTree (second : Grammar.Point) : Grammar.Node where
  type := "program"
  span := ⟨0, 13⟩
  children := [letterTree 0 ⟨0, 0⟩, letterTree 7 second]

/-- A grammar for texts of two such declarations; a newline between them starts a row, a carriage return does
not. -/
def letters : Document.Grammar := fun text => lettersTree (if '\n' ∈ text.toList then ⟨1, 0⟩ else ⟨0, 7⟩)

theorem rootsOnly_letters : RootsOnly letters := by
  intro text
  refine ⟨rfl, ?_⟩
  unfold letters
  split <;> decide +kernel

/-- With a carriage return between two declarations, a file has them in two rows, and a stream that keeps line
ends has them in one. A byte that does not decode has the code of its own from a file, and breaks the run off
from a stream that escapes it. -/
theorem run_input_rows :
    let bytes := Text.Utf8.encode "var a;\rvar b;".toList
    let file := run letters { arguments := ["a.js"], storage := fun _ => .ok bytes }
    let input := run letters { arguments := ["-"], input := bytes, decoder := .utf8 {} }
    RootsOnly letters ∧ file.code = 0 ∧ input.code = 0 ∧
      file.out = "Line 1: Consider using 'const' instead of 'var' here.\nLine 2: Consider using 'const' instead of " ++
        "'var' here.\nAST analysis complete.\n" ∧
      input.out = "Line 1: Consider using 'const' instead of 'var' here.\nLine 1: Consider using 'const' instead of " ++
        "'var' here.\nAST analysis complete.\n" ∧
      (¬ ∃ shown, Shows .text "a.js" shown file ∧ Shows .text "<stdin>" shown input) ∧
      (run letters { arguments := ["a.js"], storage := fun _ => .ok [0xff] }).code = 3 ∧
      (run letters { arguments := ["-"], input := [0xff], decoder := .utf8 { escapes := true } }).code = 1 := by
  intro bytes file input
  have hfile : file.out = "Line 1: Consider using 'const' instead of 'var' here.\nLine 2: Consider using 'const' " ++
      "instead of 'var' here.\nAST analysis complete.\n" := by decide +kernel
  have hinput : input.out = "Line 1: Consider using 'const' instead of 'var' here.\nLine 1: Consider using 'const' " ++
      "instead of 'var' here.\nAST analysis complete.\n" := by decide +kernel
  refine ⟨rootsOnly_letters, by decide +kernel, by decide +kernel, hfile, hinput, ?_, by decide +kernel,
    by decide +kernel⟩
  rintro ⟨shown, ⟨hlines, -⟩, hlines', -⟩
  have hsame : file.out = input.out := hlines.trans hlines'.symm
  rw [hfile, hinput] at hsame
  exact absurd hsame (by decide)

end LetOrConst.Command
