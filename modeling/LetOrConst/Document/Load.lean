/-
Documents in files: read, then parsed under the name of their path.
-/
import LetOrConst.Document
import LetOrConst.Files

namespace LetOrConst.Document

/-- Why a file has no tree. -/
inductive LoadError where
  | unreadable (e : ReadError)
  | unparsed (e : Error)
  deriving DecidableEq, Repr

/-- The tree of the document in a file. -/
def load (grammar : Grammar) (storage : Storage) (path : Path) : Except LoadError Tree.Node :=
  match (storage path).bind readText with
  | .error e => .error (.unreadable e)
  | .ok text => (parse grammar text path.toText).mapError .unparsed

/-- Events while a file is read and parsed. -/
def loadEvents (grammar : Grammar) (storage : Storage) (path : Path) : List Log.Event :=
  .opening path.toText ::
    match (storage path).bind readText with
    | .error _ => []
    | .ok text => events grammar text path.toText

end LetOrConst.Document
