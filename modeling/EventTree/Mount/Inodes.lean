import EventTree.Keyed
import EventTree.Tree.Stat
import EventTree.Path

/-!
# Inode numbers

Which number stands for which path, and how often the kernel has looked it up. A path
keeps its number until the kernel has forgotten every lookup; the root is never
forgotten. Numbers are issued in ascending order, and none but the last of 64 bits is
used twice.
-/
namespace EventTree

structure TrackedNode where
  path : Path
  kind : NodeKind
  /-- Lookups that the kernel has not yet forgotten. -/
  lookups : Nat
deriving DecidableEq, Repr

/-- The tracked nodes by number, and the numbers by place. -/
structure Inodes where
  entries : Keyed Nat TrackedNode
  numbers : Keyed (List Component) Nat
  /-- The number to issue next. -/
  next : Nat
deriving Repr

namespace Inodes

def rootNumber : Nat := 1

/-- Numbers and counts stay within 64 bits. -/
def maxNumber : Nat := 0xFFFFFFFFFFFFFFFF

def initial : Inodes where
  entries := Keyed.empty.insert rootNumber ⟨.root, .directory, 0⟩
  numbers := Keyed.empty.insert Path.root.components rootNumber
  next := rootNumber + 1

def get? (t : Inodes) (inode : Nat) : Option TrackedNode := t.entries.get? inode

def pathOf? (t : Inodes) (inode : Nat) : Option Path := (t.get? inode).map (·.path)

/-- The number of a tracked path. -/
def numberOf? (t : Inodes) (path : Path) : Option Nat := t.numbers.get? path.components

def size (t : Inodes) : Nat := t.entries.size

/-- Changes the entry of a number, if it has one. -/
def modify (t : Inodes) (inode : Nat) (f : TrackedNode → TrackedNode) : Inodes :=
  match t.get? inode with
  | some e => { t with entries := t.entries.insert inode (f e) }
  | none => t

/-- Issues a number that is not tracked, or the last one when no other is left. -/
def issue (t : Inodes) : Nat × Inodes :=
  (t.next, { t with next := min (t.next + 1) maxNumber })

/-- The number of a path, issued at first sight. A known path only has its kind
brought up to date. -/
def track (t : Inodes) (path : Path) (kind : NodeKind) : Nat × Inodes :=
  match t.numberOf? path with
  | some inode => (inode, t.modify inode fun e => { e with kind })
  | none =>
    let (inode, t) := if path.Same .root then (rootNumber, t) else t.issue
    (inode,
      { t with
        entries := t.entries.insert inode ⟨path, kind, 0⟩
        numbers := t.numbers.insert path.components inode })

/-- As `track`, and counts a lookup of the kernel. -/
def lookup (t : Inodes) (path : Path) (kind : NodeKind) : Nat × Inodes :=
  let (inode, t) := t.track path kind
  (inode, t.modify inode fun e => { e with lookups := min (e.lookups + 1) maxNumber })

/-- Takes back `count` lookups; without any left the node is no longer tracked. -/
def forget (t : Inodes) (inode count : Nat) : Inodes :=
  if inode = rootNumber then t
  else match t.get? inode with
    | none => t
    | some e =>
      if e.lookups - count = 0 then
        { t with
          entries := t.entries.erase inode
          numbers := t.numbers.erase e.path.components }
      else t.modify inode fun e => { e with lookups := e.lookups - count }

/-- The number of the directory that a node lies in, as far as it is tracked; else
the root's. -/
def parentOf (t : Inodes) (inode : Nat) : Nat :=
  ((t.get? inode).bind fun e =>
    (Path.enclosing? e.path.components).bind t.numbers.get?).getD rootNumber

end Inodes
end EventTree
