import EventTree.Text.Utf8
import EventTree.Tree.Node

/-!
# Metadata of nodes, open modes and reading windows
-/
namespace EventTree

/-- A time of modification. -/
inductive Stamp where
  /-- The time of the call. -/
  | now
  /-- Seconds since the epoch. -/
  | at (seconds : Nat)
deriving DecidableEq, Repr

def Stamp.ofSeconds (seconds : Int) : Stamp :=
  if 0 ≤ seconds then .at seconds.toNat else .now

structure Stat where
  kind : NodeKind
  /-- The length of the content in bytes, zero for a directory. -/
  size : Nat
  permissions : Nat
  links : Nat
  modified : Stamp
deriving DecidableEq, Repr

def directoryPermissions : Nat := 0o555
def filePermissions : Nat := 0o444

def Stat.directory : Stat :=
  { kind := .directory, size := 0, permissions := directoryPermissions, links := 2,
    modified := .now }

/-- A file as old as its event; a time before the epoch counts as now. -/
def Stat.file (size : Nat) (time : Int) : Stat :=
  { kind := .file, size, permissions := filePermissions, links := 1, modified := .ofSeconds time }

/-- The mode bits of a node: its type, then its permissions. -/
def Stat.mode (s : Stat) : Nat :=
  (match s.kind with
    | .directory => 0o040000
    | .file => 0o100000) + s.permissions

/-- The geometry of the file system. Nothing is stored, so there is no capacity. -/
structure Capacity where
  blocks : Nat := 0
  freeBlocks : Nat := 0
  availableBlocks : Nat := 0
  files : Nat := 0
  freeFiles : Nat := 0
  blockSize : Nat := 4096
  nameLength : Nat := 255
  fragmentSize : Nat := 4096
deriving DecidableEq, Repr

/-- What an open asks for. -/
structure OpenMode where
  read : Bool := false
  write : Bool := false
  append : Bool := false
  create : Bool := false
  truncate : Bool := false
deriving DecidableEq, Repr

namespace OpenMode

def reading : OpenMode := { read := true }
def readWrite : OpenMode := { read := true, write := true }

def wantsWriting (m : OpenMode) : Bool := m.write || m.append || m.create || m.truncate

end OpenMode

/-- At most `size` bytes from `offset` on. -/
def window (bytes : Bytes) (offset size : Nat) : Bytes := (bytes.drop offset).take size

theorem window_eq (bytes : Bytes) (offset size : Nat) :
    window bytes offset size =
      (bytes.take (min (offset + size) bytes.length)).drop (min offset bytes.length) := by
  rw [window, ← List.take_eq_take_min, List.take_drop]
  by_cases h : offset ≤ bytes.length
  · rw [Nat.min_eq_left h]
  · have htaken : (bytes.take (offset + size)).length ≤ bytes.length := by
      rw [List.length_take]
      exact Nat.min_le_right _ _
    rw [Nat.min_eq_right (by omega), List.drop_of_length_le htaken,
      List.drop_of_length_le (by omega)]

/-- The bytes behind a window are those from its end on, if it is cut off too. -/
theorem window_append (bytes : Bytes) (offset size : Nat) :
    window bytes offset size ++ bytes.drop (offset + (window bytes offset size).length) =
      bytes.drop offset := by
  rw [window, ← List.drop_drop, List.length_take]
  by_cases h : size ≤ (bytes.drop offset).length
  · rw [Nat.min_eq_left h, List.take_append_drop]
  · rw [Nat.min_eq_right (by omega), List.drop_length, List.append_nil,
      List.take_of_length_le (by omega)]

theorem window_eq_nil_iff {size : Nat} (hsize : 0 < size) (bytes : Bytes) (offset : Nat) :
    window bytes offset size = [] ↔ bytes.length ≤ offset := by
  rw [window, List.take_eq_nil_iff, List.drop_eq_nil_iff]
  exact or_iff_right (Nat.ne_of_gt hsize)

end EventTree
