/-
The arguments of the command. Options may stand anywhere before a double dash, long ones may be
shortened as long as they stay unique, short ones may be run together, and a value may be joined
to its option by an equals sign. What looks like a negative number or holds a blank is no option.
-/
import LetOrConst.Settings
import LetOrConst.Text.Digit

namespace LetOrConst.Command

/-- The options of the command. -/
inductive Flag where
  | help
  | resolution
  | format
  | verbose
  deriving DecidableEq, Repr

namespace Flag

/-- The spellings of an option. -/
def spellings : Flag → List String
  | help => ["-h", "--help"]
  | resolution => ["--resolution"]
  | format => ["--format"]
  | verbose => ["--verbose", "-v"]

/-- All spellings with their options. -/
def table : List (String × Flag) :=
  [help, resolution, format, verbose].flatMap fun f => f.spellings.map (·, f)

/-- The values that an option takes, when it takes one. -/
def choices? : Flag → Option (List String)
  | resolution => some (Resolution.all.map (·.name))
  | format => some (OutputFormat.all.map (·.name))
  | _ => none

/-- How an option is called in complaints. -/
def title (f : Flag) : String := String.intercalate "/" f.spellings

end Flag

/-- Arguments that cannot be made sense of. -/
inductive UsageError where
  | ambiguous (argument : String) (matching : List String)
  | valueMissing (flag : Flag)
  | valueRefused (flag : Flag) (value : String)
  | valueUnexpected (flag : Flag) (value : String)
  | unrecognized (arguments : List String)
  | settings (e : Settings.Error)
  deriving DecidableEq, Repr

/-- The wording of a complaint. -/
def UsageError.message : UsageError → String
  | ambiguous argument matching =>
    let all := String.intercalate ", " matching
    s!"ambiguous option: {argument} could match {all}"
  | valueMissing flag => s!"argument {flag.title}: expected one argument"
  | valueRefused flag value =>
    let all := String.intercalate ", " ((flag.choices?.getD []).map Text.quoted)
    s!"argument {flag.title}: invalid choice: {Text.quoted value} (choose from {all})"
  | valueUnexpected flag value =>
    s!"argument {flag.title}: ignored explicit argument {Text.quoted value}"
  | unrecognized arguments =>
    let all := String.intercalate " " arguments
    s!"unrecognized arguments: {all}"
  | settings e => e.message

/-- What an argument is by its looks. -/
inductive Shape where
  /-- A value or a path. -/
  | plain
  /-- The first double dash. -/
  | separator
  /-- An option, as it is spelled in full, with the value joined to it. -/
  | option (flag : Flag) (spelling : List Char) (value : Option (List Char))
  /-- Something like an option that is none. -/
  | unknown
  deriving DecidableEq, Repr

/-- A dash and a decimal number. -/
def isNegativeNumber : List Char → Bool
  | '-' :: rest =>
    let rest := if rest.getLast? = some '\n' then rest.dropLast else rest
    match rest.span Text.isDecimalDigit with
    | (digits, []) => !digits.isEmpty
    | (_, '.' :: fraction) => !fraction.isEmpty && fraction.all Text.isDecimalDigit
    | _ => false
  | _ => false

/-- The text before the first equals sign and, if there is one, the text behind it. -/
def splitValue (arg : List Char) : List Char × Option (List Char) :=
  match arg.span (· ≠ '=') with
  | (name, _ :: value) => (name, some value)
  | (name, []) => (name, none)

/-- The options that an argument could be short for, in their full spelling. -/
def candidates (arg : List Char) : List (Flag × List Char × Option (List Char)) :=
  match arg with
  | '-' :: '-' :: _ =>
    let (name, value) := splitValue arg
    Flag.table.filterMap fun (spelling, flag) =>
      if name.isPrefixOf spelling.toList then some (flag, spelling.toList, value) else none
  | '-' :: c :: rest =>
    Flag.table.filterMap fun (spelling, flag) =>
      if spelling.toList = ['-', c] then some (flag, ['-', c], some rest)
      else if arg.isPrefixOf spelling.toList then some (flag, spelling.toList, none)
      else none
  | _ => []

/-- The option with exactly this spelling. -/
def exactFlag? (spelling : List Char) : Option Flag :=
  (Flag.table.find? fun (s, _) => s.toList = spelling).map (·.2)

/-- The looks of an argument before any double dash. -/
def shapeOf (argument : String) : Except UsageError Shape :=
  let arg := argument.toList
  if arg.head? ≠ some '-' then .ok .plain
  else if let some flag := exactFlag? arg then .ok (.option flag arg none)
  else if arg.length = 1 then .ok .plain
  else
    match splitValue arg with
    | (name, some value) =>
      match exactFlag? name with
      | some flag => .ok (.option flag name (some value))
      | none => byCandidates arg
    | (_, none) => byCandidates arg
where
  byCandidates (arg : List Char) : Except UsageError Shape :=
    match candidates arg with
    | [(flag, spelling, value)] => .ok (.option flag spelling value)
    | [] =>
      if isNegativeNumber arg || arg.contains ' ' then .ok .plain else .ok .unknown
    | several =>
      .error (.ambiguous argument (several.map fun (_, spelling, _) => String.ofList spelling))

/-- All arguments with their looks. Behind the first double dash everything is plain. -/
def shapes : List String → Except UsageError (List (String × Shape))
  | [] => .ok []
  | argument :: rest =>
    if argument = "--" then .ok ((argument, .separator) :: rest.map (·, .plain))
    else do return (argument, ← shapeOf argument) :: (← shapes rest)

/-- What the arguments ask for. -/
structure Arguments where
  path : String := "-"
  resolution : Option String := none
  format : Option String := none
  verbose : Bool := false
  deriving DecidableEq, Repr, Inhabited

/-- Why arguments ask for no scan. -/
inductive Stop where
  | help
  | usage (e : UsageError)
  deriving DecidableEq, Repr

/-- Arguments read so far, with those that nobody wanted. -/
structure Reading where
  arguments : Arguments := {}
  pathGiven : Bool := false
  leftOver : List String := []

/-- Applies an option to its value. -/
def applyValue (flag : Flag) (value : String) (r : Reading) : Except Stop Reading :=
  if (flag.choices?.getD []).contains value then
    match flag with
    | .resolution => .ok { r with arguments := { r.arguments with resolution := some value } }
    | .format => .ok { r with arguments := { r.arguments with format := some value } }
    | _ => .ok r
  else .error (.usage (.valueRefused flag value))

/-- Applies options without values, in order. -/
def applyFlags : List Flag → Reading → Except Stop Reading
  | [], r => .ok r
  | .help :: _, _ => .error .help
  | .verbose :: rest, r =>
    applyFlags rest { r with arguments := { r.arguments with verbose := true } }
  | _ :: rest, r => applyFlags rest r

/-- The further short options that are run together with `flag`, all of them without values. -/
def runTogether (flag : Flag) : List Char → Except Stop (List Flag)
  | [] => .ok []
  | c :: rest =>
    match exactFlag? ['-', c] with
    | some next => do return next :: (← runTogether next rest)
    | none => .error (.usage (.valueUnexpected flag (String.ofList (c :: rest))))

/-- Applies an option that takes no value but may have some text joined to it. -/
def applySwitch (flag : Flag) (spelling : List Char) (joined : Option (List Char)) (r : Reading) :
    Except Stop Reading :=
  match joined with
  | none => applyFlags [flag] r
  | some text =>
    if spelling[1]? = some '-' ∨ text = [] then
      .error (.usage (.valueUnexpected flag (String.ofList text)))
    else do applyFlags (flag :: (← runTogether flag text)) r

/-- The arguments behind the last option: a path unless there is one, with the double dash next to
it, and what is left over. -/
def readRest (r : Reading) (rest : List (String × Shape)) : Reading :=
  if r.pathGiven then { r with leftOver := r.leftOver ++ rest.map (·.1) }
  else
    match rest.dropWhile (·.2 == .separator) with
    | [] => r
    | (path, _) :: rest =>
      { arguments := { r.arguments with path }
        pathGiven := true
        leftOver := r.leftOver ++ (rest.dropWhile (·.2 == .separator)).map (·.1) }

/-- Whether an argument looks like an option. -/
def looksLikeOption : Shape → Bool
  | .option .. | .unknown => true
  | _ => false

/-- Reads arguments from left to right. -/
def readAll (r : Reading) : List (String × Shape) → Except Stop Reading
  | [] => .ok r
  | (argument, .unknown) :: rest => readAll { r with leftOver := r.leftOver ++ [argument] } rest
  | (_, .option flag spelling joined) :: rest =>
    if flag.choices?.isSome then
      match joined, rest with
      | some value, rest => do readAll (← applyValue flag (String.ofList value) r) rest
      | none, (value, .plain) :: rest => do readAll (← applyValue flag value r) rest
      | none, _ => .error (.usage (.valueMissing flag))
    else do readAll (← applySwitch flag spelling joined r) rest
  | (argument, shape) :: rest =>
    if rest.any (looksLikeOption ·.2) then
      if r.pathGiven then readAll { r with leftOver := r.leftOver ++ [argument] } rest
      else
        let arguments := { r.arguments with path := argument }
        readAll { r with arguments, pathGiven := true } rest
    else .ok (readRest r ((argument, shape) :: rest))

/-- Reads the arguments of the command. -/
def readArguments (arguments : List String) : Except Stop Arguments := do
  let shaped ← (shapes arguments).mapError .usage
  let r ← readAll {} shaped
  if r.leftOver.isEmpty then return r.arguments
  else throw (.usage (.unrecognized r.leftOver))

end LetOrConst.Command
