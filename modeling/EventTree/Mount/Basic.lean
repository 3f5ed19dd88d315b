import EventTree.Mount.ErrorNumber
import EventTree.Mount.Inodes
import EventTree.Tree.View

/-!
# The mounted tree

The kernel addresses nodes by number and reads through handles. A mount translates
numbers to paths, asks the tree, and keeps what an open found under a handle until
its release, so that all reads of one open see the same content. A request that
fails leaves the mount as it was.
-/
namespace EventTree

/-- The owner shown for every node. -/
structure Owner where
  user : Nat := 0
  group : Nat := 0
deriving DecidableEq, Repr

structure Mount where
  policy : FailurePolicy := .lenient
  owner : Owner := {}
  inodes : Inodes := .initial
  /-- The content of each open file. -/
  handles : Keyed Nat Bytes := .empty
  nextHandle : Nat := 1

/-- A node as the kernel sees it. -/
structure NodeAttributes where
  inode : Nat
  stat : Stat
  owner : Owner
deriving DecidableEq, Repr

/-- One line of a directory as the kernel sees it. -/
structure ListedEntry where
  inode : Nat
  kind : NodeKind
  name : String
deriving DecidableEq, Repr

namespace Mount
variable {σ : Type} [QuerySource σ]

def blockSize : Nat := 512

/-- Blocks taken by `size` bytes. -/
def blocks (size : Nat) : Nat := (size + blockSize - 1) / blockSize

/-- The result of a question to the tree, failures as error numbers. -/
def inquire (m : Mount) (source : σ) (q : Inquiry α) : Except ErrorNumber α × σ :=
  let (answer, source) := q.run m.policy source
  (answer.mapError (·.errorNumber), source)

/-- The metadata of a path under a number that `number` finds or issues. -/
def statAt (m : Mount) (source : σ) (path : Path)
    (number : Inodes → Path → NodeKind → Nat × Inodes) :
    Except ErrorNumber NodeAttributes × Mount × σ :=
  match m.inquire source (TreeView.stat path) with
  | (.error e, source) => (.error e, m, source)
  | (.ok stat, source) =>
    let (inode, inodes) := number m.inodes path stat.kind
    (.ok ⟨inode, stat, m.owner⟩, { m with inodes }, source)

/-- Looks a name up in a directory and counts the lookup. -/
def lookup (m : Mount) (source : σ) (parent : Nat) (name : Bytes) :
    Except ErrorNumber NodeAttributes × Mount × σ :=
  match m.inodes.pathOf? parent with
  | none => (.error .noEntry, m, source)
  | some path => m.statAt source (path.join name) Inodes.lookup

def attributes (m : Mount) (source : σ) (inode : Nat) :
    Except ErrorNumber NodeAttributes × Mount × σ :=
  match m.inodes.pathOf? inode with
  | none => (.error .noEntry, m, source)
  | some path => m.statAt source path Inodes.track

def forget (m : Mount) (inode count : Nat) : Mount :=
  { m with inodes := m.inodes.forget inode count }

/-- The entries of a directory with numbers. One that is not tracked gets a number
of its own that stays untracked. -/
def numberEntries (directory : Path) (inodes : Inodes) : List Entry → List ListedEntry × Inodes
  | [] => ([], inodes)
  | e :: rest =>
    let (inode, inodes) :=
      match inodes.numberOf? (directory.join (Text.encode e.name)) with
      | some inode => (inode, inodes)
      | none => inodes.issue
    let (listed, inodes) := numberEntries directory inodes rest
    (⟨inode, e.kind, e.name⟩ :: listed, inodes)

/-- A whole directory, itself and the one around it first. -/
def listing (m : Mount) (source : σ) (inode : Nat) :
    Except ErrorNumber (List ListedEntry) × Mount × σ :=
  match m.inodes.pathOf? inode with
  | none => (.error .noEntry, m, source)
  | some path =>
    match m.inquire source (TreeView.entries path) with
    | (.error e, source) => (.error e, m, source)
    | (.ok entries, source) =>
      let (listed, inodes) := numberEntries path m.inodes entries
      (.ok (⟨inode, .directory, "."⟩ :: ⟨m.inodes.parentOf inode, .directory, ".."⟩ :: listed),
        { m with inodes }, source)

/-- Opens a file: its content now, under a new handle. -/
def openFile (m : Mount) (source : σ) (inode : Nat) (flags : Int32) :
    Except ErrorNumber Nat × Mount × σ :=
  match m.inodes.pathOf? inode with
  | none => (.error .noEntry, m, source)
  | some path =>
    match m.inquire source (TreeView.content path (.ofFlags flags)) with
    | (.error e, source) => (.error e, m, source)
    | (.ok content, source) =>
      (.ok m.nextHandle,
        { m with
          handles := m.handles.insert m.nextHandle content
          nextHandle := m.nextHandle + 1 },
        source)

/-- Reads from what was found when the handle was opened. -/
def readOpened (m : Mount) (handle : Nat) (offset : Int) (size : Nat) : Except ErrorNumber Bytes :=
  match m.handles.get? handle with
  | none => .error .badHandle
  | some content =>
    if offset < 0 then .error .invalidArgument else .ok (window content offset.toNat size)

def release (m : Mount) (handle : Nat) : Mount := { m with handles := m.handles.erase handle }

end Mount

/-- Items from `offset` on, each with the offset of the one after it. A negative
offset counts as zero. -/
def pageFrom (items : List α) (offset : Int) : List (Nat × α) :=
  ((items.zipIdx 1).map fun (a, next) => (next, a)).drop offset.toNat

end EventTree
