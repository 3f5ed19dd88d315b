import EventTree.Mount.Settings
import EventTree.Text.ControlSequences

/-!
# Command-line options

The options of the program, how they are shown, and what can be wrong with the
arguments.
-/
namespace EventTree.CommandLine

/-- An option; some take a value. -/
inductive Flag where
  | host
  | tcpPort
  | mountPoint
  | debug
  | strict
  | allowOther
  | queryTimeout
  | connectTimeout
  | help
deriving DecidableEq, Repr

namespace Flag

def all : List Flag :=
  [.host, .tcpPort, .mountPoint, .debug, .strict, .allowOther, .queryTimeout, .connectTimeout,
    .help]

def name : Flag → String
  | .host => "host"
  | .tcpPort => "port"
  | .mountPoint => "mount-point"
  | .debug => "debug"
  | .strict => "strict"
  | .allowOther => "allow-other"
  | .queryTimeout => "query-timeout-secs"
  | .connectTimeout => "connect-timeout-secs"
  | .help => "help"

/-- What the value of an option is called, if it takes one. -/
def valueName? : Flag → Option String
  | .host => some "HOST"
  | .tcpPort => some "PORT"
  | .mountPoint => some "MOUNT_POINT"
  | .queryTimeout => some "QUERY_TIMEOUT_SECS"
  | .connectTimeout => some "CONNECT_TIMEOUT_SECS"
  | .debug | .strict | .allowOther | .help => none

def takesValue (f : Flag) : Bool := f.valueName?.isSome

def ofName? (name : String) : Option Flag := all.find? (·.name = name)

/-- The option with its value, as messages and the help show it. -/
def shown (f : Flag) : String :=
  "--" ++ f.name ++ match f.valueName? with
    | some v => " <" ++ v ++ ">"
    | none => ""

def helpText : Flag → String
  | .host => "Riemann server host [default: localhost]"
  | .tcpPort => "Riemann server TCP port [default: 5555]"
  | .mountPoint => "Directory to mount on"
  | .debug => "Log at debug level (overrides RUST_LOG)"
  | .strict => "Fail filesystem calls when a query fails instead of showing empty listings"
  | .allowOther =>
    "Let other users access the mount (needs user_allow_other in /etc/fuse.conf). " ++
      "Also enables auto_unmount, so a killed process leaves no stale mount"
  | .queryTimeout => "Seconds to wait for a query response [default: 10]"
  | .connectTimeout => "Seconds to wait for the TCP connection [default: 5]"
  | .help => "Print help"

def helpLines (f : Flag) : String :=
  (if f = .help then "  -h, " else "      ") ++ f.shown ++ "\n          " ++ f.helpText ++ "\n"

end Flag

def usage : String := "Usage: riemannfs [OPTIONS] --mount-point <MOUNT_POINT>"

def help : String :=
  "Mount a Riemann event index as a read-only filesystem\n\n" ++ usage ++ "\n\nOptions:\n" ++
    String.join (Flag.all.map Flag.helpLines)

/-- Why a text is not an integer of its option. -/
inductive IntegerFault where
  | empty
  | invalidDigit
  | tooLarge
  | tooSmall
  | outOfRange (value : Int) (bound : Nat)
deriving DecidableEq, Repr

def IntegerFault.message : IntegerFault → String
  | .empty => "cannot parse integer from empty string"
  | .invalidDigit => "invalid digit found in string"
  | .tooLarge => "number too large to fit in target type"
  | .tooSmall => "number too small to fit in target type"
  | .outOfRange value bound => toString value ++ " is not in 0..=" ++ toString bound

inductive UsageFault where
  /-- The option without which nothing can be done is missing. -/
  | missingRequired
  | unexpectedArgument (shown : String)
  | unexpectedValue (value : String) (flag : Flag)
  | missingValue (flag : Flag)
  | repeated (flag : Flag)
  | invalidInteger (value : String) (flag : Flag) (fault : IntegerFault)
  | notText
deriving DecidableEq, Repr

/-- The first line says what is wrong, the rest how to learn more. What an argument
holds is shown without what would command a terminal. -/
def UsageFault.message (f : UsageFault) : String :=
  let fault :=
    match f with
    | .missingRequired =>
      "the following required arguments were not provided:\n  " ++ Flag.mountPoint.shown
    | .unexpectedArgument shown =>
      "unexpected argument '" ++ Text.withoutControls shown ++ "' found"
    | .unexpectedValue value flag =>
      "unexpected value '" ++ Text.withoutControls value ++ "' for '" ++ flag.shown ++
        "' found; no more were expected"
    | .missingValue flag =>
      "a value is required for '" ++ flag.shown ++ "' but none was supplied"
    | .repeated flag => "the argument '" ++ flag.shown ++ "' cannot be used multiple times"
    | .invalidInteger value flag fault =>
      "invalid value '" ++ Text.withoutControls value ++ "' for '" ++ flag.shown ++ "': " ++
        fault.message
    | .notText => "invalid UTF-8 was detected in one or more arguments"
  "error: " ++ fault ++ "\n\n" ++ usage ++ "\n\nFor more information, try '--help'.\n"

end EventTree.CommandLine
