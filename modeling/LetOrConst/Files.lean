/-
Paths and what can be read under them. A path is kept in a tidy form: repeated slashes and parts
that stay in place are dropped, parts that lead up are kept. A storage answers for every path; the
files of one working directory make one, in which what lies outside the directory can be named but
holds nothing to read.
-/
import LetOrConst.Text.Lines
import LetOrConst.Text.Utf8

namespace LetOrConst

/-- A path in tidy form. `root` is empty for a path that starts in the working directory. -/
structure Path where
  root : String := ""
  parts : List String
  deriving DecidableEq, Repr, Inhabited

namespace Path

/-- The root that a text starts with: two slashes are a root of their own, more are as good as
one. -/
def rootOf : List Char → String
  | '/' :: '/' :: '/' :: _ => "/"
  | '/' :: '/' :: _ => "//"
  | '/' :: _ => "/"
  | _ => ""

/-- Reads a path. -/
def ofString (s : String) : Path where
  root := rootOf s.toList
  parts := (s.splitOn "/").filter fun part => part ≠ "" ∧ part ≠ "."

/-- A path as text; the working directory itself is a dot. -/
def toText (p : Path) : String :=
  let text := p.root ++ String.intercalate "/" p.parts
  if text = "" then "." else text

end Path

/-- What there can be under a path. -/
inductive Entry where
  | file (bytes : List UInt8)
  | directory
  deriving DecidableEq, Repr

/-- The files of a working directory by the parts of their paths. The directories that lead to a
file are there with it. -/
structure Files where
  entries : List (List String × Entry) := []
  deriving DecidableEq, Repr, Inhabited

/-- Why a document could not be read. -/
inductive ReadError where
  | missing (path : String)
  | isDirectory (path : String)
  | notDirectory (path : String)
  | denied (path : String)
  | nullByte
  | undecodable (fault : Text.Utf8.Fault)
  deriving DecidableEq, Repr

/-- The wording of a failure to read. -/
def ReadError.message : ReadError → String
  | missing path => s!"[Errno 2] No such file or directory: {Text.quoted path}"
  | isDirectory path => s!"[Errno 21] Is a directory: {Text.quoted path}"
  | notDirectory path => s!"[Errno 20] Not a directory: {Text.quoted path}"
  | denied path => s!"[Errno 13] Permission denied: {Text.quoted path}"
  | nullByte => "embedded null byte"
  | undecodable fault => fault.message

/-- What can be read under a path. -/
abbrev Storage := Path → Except ReadError (List UInt8)

/-- The storage that holds nothing. -/
def Storage.empty : Storage := fun path => .error (.missing path.toText)

namespace Files

/-- The entry at a place in the working directory. -/
def entry? (fs : Files) (place : List String) : Option Entry :=
  match fs.entries.lookup place with
  | some e => some e
  | none =>
    if place.isEmpty || fs.entries.any (fun (p, _) => place.isPrefixOf p) then some .directory
    else none

/-- The entry reached from a place in the working directory, or from outside of it when `place` is
`none`. `failed` is what to complain about. -/
def follow (fs : Files) (failed : String) (place : Option (List String)) :
    List String → Except ReadError Entry
  | [] =>
    match place with
    | none => .ok .directory
    | some place =>
      match fs.entry? place with
      | some e => .ok e
      | none => .error (.missing failed)
  | part :: rest =>
    match place with
    | none => if part = ".." then fs.follow failed none rest else .error (.missing failed)
    | some place =>
      match fs.entry? place with
      | none => .error (.missing failed)
      | some (.file _) => .error (.notDirectory failed)
      | some .directory =>
        if part = ".." then
          fs.follow failed (if place.isEmpty then none else some place.dropLast) rest
        else fs.follow failed (some (place ++ [part])) rest

/-- The bytes of the file that a path leads to. -/
def read (fs : Files) : Storage := fun path => do
  if path.toText.toList.contains '\x00' then throw .nullByte
  let start := if path.root = "" then some [] else none
  match ← fs.follow path.toText start path.parts with
  | .file bytes => return bytes
  | .directory => throw (.isDirectory path.toText)

end Files

/-- The text of a file with these bytes: they are UTF-8, and all line ends get one spelling. -/
def readText (bytes : List UInt8) : Except ReadError String :=
  match Text.Utf8.decode bytes with
  | .ok cs => .ok (String.ofList (Text.unifyNewlines cs))
  | .error fault => .error (.undecodable fault)

end LetOrConst
