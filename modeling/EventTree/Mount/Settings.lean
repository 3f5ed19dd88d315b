import EventTree.Mount.Machine
import EventTree.Remote.Frame
import EventTree.Text.Escaped
import EventTree.Tree.View

/-!
# Mount settings

Where the index is, where the tree is to be mounted and with which options.
-/
namespace EventTree

/-- Where the index is and how long to wait for it. -/
structure IndexAddress where
  host : String := "localhost"
  tcpPort : Nat := 5555
  connectTimeoutSeconds : Nat := 5
  queryTimeoutSeconds : Nat := 10
  frameLimit : Nat := defaultFrameLimit
deriving DecidableEq, Repr

def IndexAddress.text (a : IndexAddress) : String := a.host ++ ":" ++ toString a.tcpPort

structure MountSettings where
  mountPoint : Path
  allowOther : Bool := false
  policy : FailurePolicy := .lenient
  index : IndexAddress := {}
deriving DecidableEq, Repr

inductive MountOption where
  | readOnly
  | name (text : String)
  | subtype (text : String)
  | defaultPermissions
  | allowOther
  | autoUnmount
deriving DecidableEq, Repr

def MountOption.text : MountOption → String
  | .readOnly => "RO"
  | .name text => "FSName(" ++ Text.escaped text ++ ")"
  | .subtype text => "Subtype(" ++ Text.escaped text ++ ")"
  | .defaultPermissions => "DefaultPermissions"
  | .allowOther => "AllowOther"
  | .autoUnmount => "AutoUnmount"

/-- Why a path cannot be mounted on. -/
inductive MountPointFault where
  | missing (path : Path)
  | notADirectory (path : Path)
  | unreadable (path : Path) (reason : LookError)
deriving DecidableEq, Repr

def MountPointFault.message : MountPointFault → String
  | .missing path => "mount point " ++ path.shown ++ " does not exist"
  | .notADirectory path => "mount point " ++ path.shown ++ " is not a directory"
  | .unreadable path reason =>
    "cannot inspect mount point " ++ path.shown ++ ": " ++ reason.message

/-- The message of what lies behind a fault, if anything does. -/
def MountPointFault.reason? : MountPointFault → Option String
  | .unreadable _ reason => some reason.message
  | _ => none

/-- A mount point is a directory that is there. -/
def Machine.checkMountPoint (m : Machine) (path : Path) : Except MountPointFault Unit :=
  match m.look path with
  | .ok .directory => .ok ()
  | .ok .other => .error (.notADirectory path)
  | .error .missing => .error (.missing path)
  | .error reason => .error (.unreadable path reason)

namespace MountSettings

def fileSystemName : String := "riemannfs"

/-- The options of a mount. Unmounting by itself is only allowed together with access
for other users, so the two go together. -/
def options (s : MountSettings) : List MountOption :=
  [.readOnly, .name fileSystemName, .subtype fileSystemName, .defaultPermissions] ++
    if s.allowOther then [.allowOther, .autoUnmount] else []

end MountSettings

end EventTree
