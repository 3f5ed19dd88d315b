import EventTree.Mount.Basic

/-!
# Kernel requests

The requests that the kernel sends to a mount, and their replies. A directory is
sent in pages: as many entries as the kernel's buffer takes.
-/
namespace EventTree

inductive Request where
  | lookup (parent : Nat) (name : Bytes)
  | attributes (inode : Nat)
  | forget (inode count : Nat)
  | openFile (inode : Nat) (flags : Int32)
  | read (handle : Nat) (offset : Int) (size : Nat)
  | release (handle : Nat)
  | openDirectory (inode : Nat)
  | readDirectory (inode : Nat) (offset : Int) (room : Nat)
  | releaseDirectory (inode : Nat)
  | capacity
  /-- Any request that the mount does not serve. -/
  | unserved
deriving DecidableEq, Repr

/-- An entry of a page with the offset of the one after it. -/
structure PageEntry where
  entry : ListedEntry
  next : Nat
deriving DecidableEq, Repr

inductive Reply where
  | failed (error : ErrorNumber)
  | node (attributes : NodeAttributes)
  | attributes (attributes : NodeAttributes)
  /-- Nothing is sent. -/
  | silent
  | opened (handle : Nat) (flags : Nat)
  | data (bytes : Bytes)
  | page (entries : List PageEntry)
  | capacity (capacity : Capacity)
  | done
deriving DecidableEq, Repr

namespace Reply

/-- Seconds for which the kernel may keep attributes and lookups. -/
def lifetime : Nat := 1

/-- Reads of a file bypass the kernel's cache: the content may differ from the size
that was last reported. -/
def directIo : Nat := 1

end Reply

/-- The space of an entry in the kernel's buffer. -/
def ListedEntry.room (e : ListedEntry) : Nat := (24 + (Text.encode e.name).length + 7) / 8 * 8

/-- The first entries that fit into `room` bytes together. -/
def fillPage (room : Nat) : List (Nat × ListedEntry) → List PageEntry
  | [] => []
  | (next, entry) :: rest =>
    if room < entry.room then [] else ⟨entry, next⟩ :: fillPage (room - entry.room) rest

namespace Mount
variable {σ : Type} [QuerySource σ]

def serve (m : Mount) (source : σ) : Request → Reply × Mount × σ
  | .lookup parent name =>
    match m.lookup source parent name with
    | (.error e, m, source) => (.failed e, m, source)
    | (.ok a, m, source) => (.node a, m, source)
  | .attributes inode =>
    match m.attributes source inode with
    | (.error e, m, source) => (.failed e, m, source)
    | (.ok a, m, source) => (.attributes a, m, source)
  | .forget inode count => (.silent, m.forget inode count, source)
  | .openFile inode flags =>
    match m.openFile source inode flags with
    | (.error e, m, source) => (.failed e, m, source)
    | (.ok handle, m, source) => (.opened handle Reply.directIo, m, source)
  | .read handle offset size =>
    match m.readOpened handle offset size with
    | .error e => (.failed e, m, source)
    | .ok bytes => (.data bytes, m, source)
  | .release handle => (.done, m.release handle, source)
  | .openDirectory _ => (.opened 0 0, m, source)
  | .readDirectory inode offset room =>
    match m.listing source inode with
    | (.error e, m, source) => (.failed e, m, source)
    | (.ok listed, m, source) => (.page (fillPage room (pageFrom listed offset)), m, source)
  | .releaseDirectory _ => (.done, m, source)
  | .capacity => (.capacity {}, m, source)
  | .unserved => (.failed .notImplemented, m, source)

end Mount
end EventTree
