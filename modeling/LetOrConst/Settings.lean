/-
Settings of a scan: how assignments are matched, in which form results are shown, and from which
level on events are logged. Settings come as texts, from the caller or from the environment, and
are checked in that order; the first that does not fit is refused.
-/
import LetOrConst.Advice
import LetOrConst.Text.Blank
import LetOrConst.Text.Case

namespace LetOrConst

/-- The form in which results are shown. -/
inductive OutputFormat where
  | text
  | json
  deriving DecidableEq, Repr, Inhabited

namespace OutputFormat

/-- All forms, in the order they are listed. -/
def all : List OutputFormat := [text, json]

/-- The name of a form. -/
def name : OutputFormat → String
  | text => "text"
  | json => "json"

/-- The form with a given name. -/
def ofName? (s : String) : Option OutputFormat := all.find? (·.name == s)

end OutputFormat

/-- A threshold for logging: the level's name as it was given, and its severity. -/
structure Threshold where
  name : String
  severity : Nat
  deriving DecidableEq, Repr, Inhabited

namespace Threshold

/-- The levels by name. -/
def levels : List (String × Nat) :=
  [("CRITICAL", 50), ("FATAL", 50), ("ERROR", 40), ("WARN", 30), ("WARNING", 30), ("INFO", 20),
    ("DEBUG", 10), ("NOTSET", 0)]

/-- The threshold of a level's name in any case. -/
def ofName? (s : String) : Option Threshold :=
  (levels.lookup (String.ofList (Text.upper s.toList))).map (⟨s, ·⟩)

end Threshold

/-- Settings that passed all checks. -/
structure Settings where
  resolution : Resolution := .byName
  format : OutputFormat := .text
  threshold : Threshold := ⟨"INFO", 20⟩
  deriving DecidableEq, Repr, Inhabited

namespace Settings

/-- A setting that does not fit, as it was given. -/
inductive Error where
  | resolution (given : String)
  | format (given : String)
  | level (given : String)
  deriving DecidableEq, Repr

/-- The wording of a refusal. -/
def Error.message : Error → String
  | resolution given => s!"Invalid resolution mode: {Text.quoted given}"
  | format given => s!"Invalid output format: {Text.quoted given}"
  | level given => s!"Invalid log level: {Text.quoted given}"

/-- Settings as texts, some of them left open. -/
structure Request where
  resolution : Option String := none
  format : Option String := none
  level : Option String := none
  deriving DecidableEq, Repr, Inhabited

/-- A value for a setting: what is given when it fits, else a refusal, and `current` when nothing
is given. -/
def choose {α : Type} (ofName? : String → Option α) (refuse : String → Error) (current : α) :
    Option String → Except Error α
  | none => .ok current
  | some given =>
    match ofName? given with
    | some value => .ok value
    | none => .error (refuse given)

/-- The settings with what is given in the request replaced. -/
def override (s : Settings) (r : Request) : Except Error Settings := do
  let resolution ← choose Resolution.ofName? .resolution s.resolution r.resolution
  let format ← choose OutputFormat.ofName? .format s.format r.format
  let threshold ← choose Threshold.ofName? .level s.threshold r.level
  return { resolution, format, threshold }

/-- The settings of a request, with defaults for what it leaves open. -/
def ofRequest (r : Request) : Except Error Settings := override {} r

/-- The variables of the environment that hold settings. -/
def resolutionVariable : String := "CODE_ANALYZER_RESOLUTION"
@[inherit_doc resolutionVariable]
def formatVariable : String := "CODE_ANALYZER_FORMAT"
@[inherit_doc resolutionVariable]
def levelVariable : String := "CODE_ANALYZER_LOG_LEVEL"

/-- The request that an environment makes. Blanks around values do not count, nor does their
case. -/
def requestOf (environment : List (String × String)) : Request where
  resolution := (environment.lookup resolutionVariable).map lowerTrimmed
  format := (environment.lookup formatVariable).map lowerTrimmed
  level := (environment.lookup levelVariable).map upperTrimmed
where
  lowerTrimmed (s : String) : String := String.ofList (Text.lower (Text.trim s.toList))
  upperTrimmed (s : String) : String := String.ofList (Text.upper (Text.trim s.toList))

/-- The settings of an environment. -/
def ofEnvironment (environment : List (String × String)) : Except Error Settings :=
  ofRequest (requestOf environment)

end Settings
end LetOrConst
