/-
The command: its arguments and environment decide what is scanned and how, and the scan decides
what is written and with which code the command ends. A document that cannot be read has a code of
its own; what the command does not expect breaks it off.
-/
import LetOrConst.Command.Arguments
import LetOrConst.Command.Help
import LetOrConst.Input
import LetOrConst.Scan

namespace LetOrConst.Command

/-- All that a run of the command depends on. -/
structure Invocation where
  arguments : List String := []
  environment : List (String × String) := []
  storage : Storage := .empty
  input : List UInt8 := []
  /-- How the stream of the input decodes it; unless told otherwise, as a file is. -/
  decoder : Decoder := .utf8 { unifies := true }

/-- Something that is written: to the output, to the error stream, or as an entry of the log, which
goes to the error stream as well. -/
inductive Effect where
  | out (text : String)
  | err (text : String)
  | log (e : Log.Event)
  deriving DecidableEq, Repr

/-- What a run does not expect and leaves to whoever started it. -/
inductive Uncaught where
  /-- A path that no file can have. -/
  | nullByte
  /-- An escaped text, which cannot be parsed. -/
  | unencodable
  | scopes (f : Scope.Fault)
  deriving DecidableEq, Repr

/-- The end of a run. -/
structure Outcome where
  code : Nat
  /-- Whether the arguments ended the run before there was anything to scan. -/
  early : Bool := false
  effects : List Effect := []
  /-- What broke the run off, if anything did. What is reported of it is not the command's. -/
  uncaught : Option Uncaught := none
  deriving DecidableEq, Repr

/-- An entry of the log as it is written. -/
def logLine (e : Log.Event) : String := e.render ++ "\n"

/-- All that is written to the output. -/
def Outcome.out (o : Outcome) : String :=
  String.join <| o.effects.map fun
    | .out text => text
    | _ => ""

/-- All that is written to the error stream. -/
def Outcome.err (o : Outcome) : String :=
  String.join <| o.effects.map fun
    | .out _ => ""
    | .err text => text
    | .log e => logLine e

/-- The code for a scan that ended. -/
def exitCode : Scan.Status → Nat
  | .ok => 0
  | .failed => 1
  | .empty => 2

/-- The code for arguments that make no sense. -/
def usageCode : Nat := 2

/-- The code for a document that cannot be read. -/
def unreadableCode : Nat := 3

/-- The code that a run has when it is broken off. -/
def uncaughtCode : Nat := 1

/-- The end of a run that is broken off. -/
def breakOff (u : Uncaught) : Outcome where
  code := uncaughtCode
  uncaught := some u

/-- The end of a run on a complaint about its arguments. -/
def complain (e : UsageError) : Outcome where
  code := usageCode
  early := true
  effects := [.err (usage ++ s!"{commandName}: error: {e.message}\n")]

/-- The effect of an event under a threshold. -/
def logEffect (threshold : Threshold) (e : Log.Event) : List Effect :=
  if threshold.severity ≤ e.level.severity then [.log e] else []

/-- The effects of what a presenter writes. -/
def outputEffects (o : Report.Output) : List Effect :=
  (if o.out = "" then [] else [.out o.out]) ++ (if o.err = "" then [] else [.err o.err])

/-- The effects of a scan's steps with a presenter. -/
def stepEffects (threshold : Threshold) : Report.Presenter → List Scan.Step → List Effect
  | _, [] => []
  | presenter, .note e :: rest => logEffect threshold e ++ stepEffects threshold presenter rest
  | presenter, .tell call :: rest =>
    outputEffects (presenter.tell call).2 ++ stepEffects threshold (presenter.tell call).1 rest

/-- The presenter for a format. -/
def presenterFor (format : OutputFormat) (identity : String) : Report.Presenter :=
  match format with
  | .text => .console
  | .json => .json { document := some identity }

/-- The document that an input delivers. -/
def inputSource : Delivered → Except Uncaught Source
  | .text s => .ok (.ofInput (.ok s))
  | .failed e => .ok (.ofInput (.error e))
  | .escaped => .error .unencodable

/-- The document that a path names; a dash names the standard input. -/
def sourceFor (inv : Invocation) (path : String) : Except Uncaught Source :=
  if path = "-" then inputSource (inv.decoder inv.input)
  else .ok (.ofFile inv.storage (Path.ofString path))

/-- The end of a run that scans. -/
def scan (grammar : Document.Grammar) (source : Source) (settings : Settings) : Outcome :=
  match Scan.run grammar source settings with
  | .ok (result, steps) =>
    { code := exitCode result.status
      effects :=
        stepEffects settings.threshold (presenterFor settings.format source.identity) steps }
  | .error (.unreadable .nullByte) => breakOff .nullByte
  | .error (.unreadable e) =>
    { code := unreadableCode
      effects := logEffect settings.threshold (.unreadable source.identity e.message) }
  | .error (.scopes f) => breakOff (.scopes f)

/-- The settings of a run: those of the environment, with what the arguments give in their place. -/
def settingsFor (environment : List (String × String)) (a : Arguments) :
    Except Settings.Error Settings := do
  (← Settings.ofEnvironment environment).override
    { resolution := a.resolution
      format := a.format
      level := if a.verbose then some "DEBUG" else none }

/-- Runs the command. -/
def run (grammar : Document.Grammar) (inv : Invocation) : Outcome :=
  match readArguments inv.arguments with
  | .error .help => { code := 0, early := true, effects := [.out help] }
  | .error (.usage e) => complain e
  | .ok arguments =>
    match settingsFor inv.environment arguments with
    | .error e => complain (.settings e)
    | .ok settings =>
      match sourceFor inv arguments.path with
      | .error u => breakOff u
      | .ok source => scan grammar source settings

end LetOrConst.Command
