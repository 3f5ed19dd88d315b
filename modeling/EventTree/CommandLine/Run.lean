import EventTree.CommandLine.Arguments
import EventTree.Remote.Fault

/-!
# A run of the program

From the arguments to the text on both outputs and the exit code. The mount point is
looked at before the index is connected to; the part of a run behind a connection
that was made is not described here.
-/
namespace EventTree.CommandLine

structure RunResult where
  exitCode : Nat
  output : String := ""
  errors : String := ""
deriving DecidableEq, Repr

/-- What ends a run after the arguments have been read. -/
inductive StartFault where
  | mountPoint (fault : MountPointFault)
  | connection (address : String) (reason : String)
deriving DecidableEq, Repr

/-- The message, followed by that of the reason behind it where there is one. -/
def StartFault.message : StartFault → String
  | .mountPoint fault =>
    fault.message ++ match fault.reason? with
      | some reason => ": " ++ reason
      | none => ""
  | .connection address reason =>
    "cannot connect to Riemann at " ++ address ++ ": " ++
      (ExchangeFault.io reason).message ++ ": " ++ reason

/-- What stops a mount from being started on a machine. -/
def start (machine : Machine) (settings : MountSettings) : Except StartFault Unit :=
  match machine.checkMountPoint settings.mountPoint with
  | .error fault => .error (.mountPoint fault)
  | .ok () =>
    match machine.connectError settings.index.text with
    | some reason => .error (.connection settings.index.text reason)
    | none => .ok ()

def run (machine : Machine) (args : List Bytes) : RunResult :=
  match readArguments args with
  | .error fault => { exitCode := 2, errors := fault.message }
  | .ok .help => { exitCode := 0, output := help }
  | .ok (.mount settings) =>
    match start machine settings with
    | .error fault =>
      { exitCode := 1, errors := MountSettings.fileSystemName ++ ": " ++ fault.message ++ "\n" }
    | .ok () => { exitCode := 0 }

end EventTree.CommandLine
