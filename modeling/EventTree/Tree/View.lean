import EventTree.Index.Source
import EventTree.Tree.Entries
import EventTree.Tree.Filter
import EventTree.Tree.Stat

/-!
# The tree as a read-only file system

Each operation works out the node of a path, asks the index at most one filter and
turns the events into its answer. Nothing is kept between operations, so an answer
shows the index as it is at that time.
-/
namespace EventTree

/-- What a failed query means for the operation behind it. -/
inductive FailurePolicy where
  /-- It counts as an answer without events. -/
  | lenient
  | strict
deriving DecidableEq, Repr, Inhabited

def FailurePolicy.name : FailurePolicy → String
  | .lenient => "Lenient"
  | .strict => "Strict"

/-- An answer that is known at once or needs one query. -/
inductive Inquiry (α : Type) where
  | settled (answer : Except TreeFault α)
  | ask (filter : String) (use : List Event → Except TreeFault α)

namespace Inquiry

def map (f : α → β) : Inquiry α → Inquiry β
  | .settled answer => .settled (answer.map f)
  | .ask filter use => .ask filter fun events => (use events).map f

/-- The filter that is asked, if any. -/
def filter? : Inquiry α → Option String
  | .settled _ => none
  | .ask filter _ => some filter

def run {σ : Type} [QuerySource σ] (policy : FailurePolicy) (source : σ) :
    Inquiry α → Except TreeFault α × σ
  | .settled answer => (answer, source)
  | .ask filter use =>
    match QuerySource.query source filter, policy with
    | (.ok events, source), _ => (use events, source)
    | (.error _, source), .lenient => (use [], source)
    | (.error fault, source), .strict => (.error (.query fault), source)

end Inquiry

/-- The node of a path. -/
def Path.node (p : Path) : Except TreeFault Node :=
  match p.names? with
  | none => .error (.invalidPath p)
  | some names =>
    match Node.ofNames? names with
    | none => .error (.notFound p)
    | some node => .ok node

namespace TreeView

/-- How a tree with a policy describes itself. -/
def description (policy : FailurePolicy) : String :=
  "EventFs \x7b policy: " ++ policy.name ++ ", .. \x7d"

/-- The event of a field and the content of its file. -/
def fieldContent (path : Path) (filter name : String) (events : List Event) :
    Except TreeFault (Event × Bytes) :=
  match singleEvent filter events with
  | .error fault => .error fault
  | .ok none => .error (.notFound path)
  | .ok (some e) =>
    match e.fileBytes? name with
    | none => .error (.fieldNotFound name)
    | some bytes => .ok (e, bytes)

def askField (path : Path) (selector : Selector) (name : String) : Inquiry (Event × Bytes) :=
  let filter := Filter.ofSelector selector
  .ask filter (fieldContent path filter name)

/-- Metadata. A directory is not looked for in the index. -/
def stat (path : Path) : Inquiry Stat :=
  match path.node with
  | .error fault => .settled (.error fault)
  | .ok (.field selector name) =>
    (askField path selector name).map fun (e, bytes) => Stat.file bytes.length e.time.toInt
  | .ok _ => .settled (.ok .directory)

/-- The entries of a directory, given the events found for it. -/
def entriesOf (filter : String) (node : Node) (events : List Event) :
    Except TreeFault (List Entry) :=
  match node with
  | .root => .ok (Entry.ofRoot events)
  | .hosts _ => .ok (Entry.ofValues (·.host) events)
  | .services .. => .ok (Entry.ofValues (·.service) events)
  | .record _ =>
    match singleEvent filter events with
    | .error fault => .error fault
    | .ok none => .ok []
    | .ok (some e) => .ok (Entry.ofEvent e)
  | .queryRoot | .field .. => .ok []

/-- The entries of a directory. -/
def entries (path : Path) : Inquiry (List Entry) :=
  match path.node with
  | .error fault => .settled (.error fault)
  | .ok (.field ..) => .settled (.error (.notADirectory path))
  | .ok node =>
    match Filter.ofNode? node with
    | none => .settled (.ok [])
    | some filter => .ask filter (entriesOf filter node)

/-- The whole content of a file. A wish to write is refused before anything else. -/
def content (path : Path) (mode : OpenMode) : Inquiry Bytes :=
  if mode.wantsWriting then .settled (.error (.permissionDenied path))
  else
    match path.node with
    | .error fault => .settled (.error fault)
    | .ok (.field selector name) => (askField path selector name).map (·.2)
    | .ok _ => .settled (.error (.isADirectory path))

/-- A part of a file, from a reading of its own. -/
def read (path : Path) (offset size : Nat) : Inquiry Bytes :=
  (content path .reading).map (window · offset size)

end TreeView
end EventTree
