/-
The command line. All decisions are made by `Command.run`; here the file or the input that the
arguments name is read, and what is to be written is written. The input is decoded as in a locale
with UTF-8.
-/
import LetOrConst.Command
import LetOrConst.JavaScript.Program

namespace LetOrConst.Main

/-- The codes under which a system says that a directory stands where a file is expected. -/
def directoryCodes : List UInt32 := [21, 4294967275]

/-- Why a file could not be read, as far as the system tells. -/
def readErrorOf (path : String) : IO.Error → ReadError
  | .noFileOrDirectory .. => .missing path
  | .inappropriateType _ code _ =>
    if directoryCodes.contains code then .isDirectory path else .notDirectory path
  | .invalidArgument .. => .nullByte
  | .permissionDenied .. => .denied path
  | _ => .missing path

/-- What the file under a path holds. -/
def readFile (path : Path) : IO (Except ReadError (List UInt8)) := do
  try
    return .ok (← IO.FS.readBinFile path.toText).toList
  catch e =>
    return .error (readErrorOf path.toText e)

/-- The variables of the environment that matter, as far as they are set. -/
def readEnvironment : IO (List (String × String)) := do
  let names := [Settings.resolutionVariable, Settings.formatVariable, Settings.levelVariable]
  let values ← names.mapM fun name => do return (← IO.getEnv name).map (name, ·)
  return values.reduceOption

/-- All that the standard input holds. -/
def readInput : IO (List UInt8) := do
  return (← (← IO.getStdin).readBinToEnd).toList

/-- The run of the command that arguments ask for, with the one document they name. -/
def invocationOf (arguments : List String) : IO Command.Invocation := do
  let environment ← readEnvironment
  match Command.readArguments arguments with
  | .error _ => return { arguments, environment }
  | .ok a =>
    if a.path = "-" then
      return { arguments, environment, input := ← readInput, decoder := .utf8 {} }
    let content ← readFile (Path.ofString a.path)
    return { arguments, environment, storage := fun _ => content }

/-- Writes what a run of the command writes. -/
def perform : Command.Effect → IO Unit
  | .out text => IO.print text
  | .err text => IO.eprint text
  | .log e => IO.eprint (Command.logLine e)

end LetOrConst.Main

open LetOrConst in
/-- Runs the command. -/
def main (arguments : List String) : IO UInt32 := do
  let outcome := Command.run JavaScript.grammar (← Main.invocationOf arguments)
  outcome.effects.forM Main.perform
  return outcome.code.toUInt32
