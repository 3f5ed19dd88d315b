import EventTree.Index.Fault
import EventTree.Json.Fault
import EventTree.Path
import EventTree.Text.Escaped

/-!
# Why an operation on the tree can fail
-/
namespace EventTree

inductive TreeFault where
  /-- The path names no node, or no event is behind it. -/
  | notFound (path : Path)
  /-- The event has no such field or attribute. -/
  | fieldNotFound (field : String)
  /-- The tree is never written to. -/
  | permissionDenied (path : Path)
  | notADirectory (path : Path)
  | isADirectory (path : Path)
  /-- A step upwards, or a name that is not text. -/
  | invalidPath (path : Path)
  | query (fault : QueryFault)
  /-- More than one event where a host and a service should single one out. -/
  | ambiguous (filter : String) (count : Nat)
  | unserializable (fault : Json.Fault) (text : String)
deriving DecidableEq, Repr

/-- The classes of failure that a caller of file operations tells apart. -/
inductive FailureKind where
  | notFound
  | permissionDenied
  | notADirectory
  | isADirectory
  | invalidInput
  | timedOut
  | other
deriving DecidableEq, Repr

namespace TreeFault

def message : TreeFault → String
  | .notFound path => "no such node: " ++ path.shown
  | .fieldNotFound field => "no such field: " ++ field
  | .permissionDenied path => "read-only: " ++ path.shown
  | .notADirectory path => "field is not a directory: " ++ path.shown
  | .isADirectory path => "cannot open directory: " ++ path.shown
  | .invalidPath path => "unusable path: " ++ path.shown
  | .query fault => "query failed: " ++ fault.message
  | .ambiguous filter count =>
    .ofList (Number.decimalDigits count) ++ " events matched " ++ Text.escaped filter ++
      ", expected at most one"
  | .unserializable fault text => "cannot serialize event: " ++ fault.message text

/-- Whether the fault says that nothing is there. -/
def isNotFound : TreeFault → Bool
  | .notFound _ | .fieldNotFound _ => true
  | _ => false

def failureKind : TreeFault → FailureKind
  | .notFound _ | .fieldNotFound _ => .notFound
  | .permissionDenied _ => .permissionDenied
  | .notADirectory _ => .notADirectory
  | .isADirectory _ => .isADirectory
  | .invalidPath _ => .invalidInput
  | .query .timeout => .timedOut
  | .query _ | .ambiguous .. | .unserializable .. => .other

end TreeFault

end EventTree
