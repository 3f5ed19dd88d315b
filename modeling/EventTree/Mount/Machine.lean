import EventTree.Path
import EventTree.Remote.Network

/-!
# The machine around a mount

What can be found at a path of the machine's own file system, by the rules of a
Unix kernel, and whether a connection can be made from it.
-/
namespace EventTree

/-- What stands at a place of the machine's file system. -/
inductive Found where
  | directory
  | other
deriving DecidableEq, Repr

/-- Why a path cannot be looked at. -/
inductive LookError where
  | missing
  | notADirectory
  | nameTooLong
  /-- A zero byte cannot be part of a path. -/
  | zeroByte
deriving DecidableEq, Repr

def LookError.message : LookError → String
  | .missing => "No such file or directory (os error 2)"
  | .notADirectory => "Not a directory (os error 20)"
  | .nameTooLong => "File name too long (os error 36)"
  | .zeroByte => "file name contained an unexpected NUL byte"

structure Machine where
  /-- What is at a place, given by the names from the root on. -/
  files : List Bytes → Option Found
  /-- The directory at which paths begin that are not absolute. -/
  workingDirectory : List Bytes
  /-- Why no connection to an address can be made, if that is so. -/
  connectError : (address : String) → Option String

namespace Machine

def nameLimit : Nat := 255
def pathLimit : Nat := 4096

/-- Follows the pieces of a path from a place that is there. -/
def walk (m : Machine) : (place : List Bytes) → (found : Found) → (pieces : List Bytes) →
    Except LookError Found
  | _, found, [] => .ok found
  | _, .other, _ :: _ => .error .notADirectory
  | place, .directory, piece :: rest =>
    if piece = [] ∨ piece = [Path.dot] then m.walk place .directory rest
    else if piece = [Path.dot, Path.dot] then m.walk place.dropLast .directory rest
    else if nameLimit < piece.length then .error .nameTooLong
    else match m.files (place ++ [piece]) with
      | none => .error .missing
      | some found => m.walk (place ++ [piece]) found rest

/-- Where the first name of a path is looked up. -/
def base (m : Machine) (path : Path) : List Bytes :=
  if path.isAbsolute then [] else m.workingDirectory

/-- What is at a path. -/
def look (m : Machine) (path : Path) : Except LookError Found :=
  if path.bytes.contains 0 then .error .zeroByte
  else if path.bytes = [] then .error .missing
  else if pathLimit ≤ path.bytes.length then .error .nameTooLong
  else m.walk (m.base path) .directory (Path.pieces path.bytes)

/-- A machine with no more files than a null device and without a network, which is
used from an empty directory. -/
def bare : Machine where
  files place :=
    if place = [Text.encode "dev"] ∨ place = [Text.encode "home"] then some .directory
    else if place = [Text.encode "dev", Text.encode "null"] then some .other
    else none
  workingDirectory := [Text.encode "home"]
  connectError _ := some networkUnreachable

end Machine
end EventTree
