import EventTree.Tree.Fault
import EventTree.Tree.Stat

/-!
# Error numbers and open flags

The numbers that the kernel's file system interface uses for failures, and the bits
of an open request that ask for writing.
-/
namespace EventTree

inductive ErrorNumber where
  | notPermitted
  | noEntry
  | inputOutput
  | badHandle
  | notADirectory
  | isADirectory
  | invalidArgument
  | notImplemented
deriving DecidableEq, Repr

def ErrorNumber.code : ErrorNumber → Nat
  | .notPermitted => 1
  | .noEntry => 2
  | .inputOutput => 5
  | .badHandle => 9
  | .notADirectory => 20
  | .isADirectory => 21
  | .invalidArgument => 22
  | .notImplemented => 38

def TreeFault.errorNumber : TreeFault → ErrorNumber
  | .notFound _ | .fieldNotFound _ => .noEntry
  | .permissionDenied _ => .notPermitted
  | .notADirectory _ => .notADirectory
  | .isADirectory _ => .isADirectory
  | .invalidPath _ => .invalidArgument
  | .query _ | .ambiguous .. | .unserializable .. => .inputOutput

namespace OpenMode

def createBit : UInt32 := 0x40
def truncateBit : UInt32 := 0x200
def appendBit : UInt32 := 0x400

/-- The mode that the flags of an open request ask for. The two lowest bits are the
access: 0 reads, 1 writes, 2 does both. -/
def ofFlags (flags : Int32) : OpenMode :=
  let bits := flags.toUInt32
  let access := bits &&& 3
  { read := access == 0 || access == 2
    write := access == 1 || access == 2
    append := bits &&& appendBit != 0
    create := bits &&& createBit != 0
    truncate := bits &&& truncateBit != 0 }

end OpenMode
end EventTree
