import EventTree.CommandLine.Usage

/-!
# Reading the arguments

Arguments are read from left to right. The value of an option is judged only when
the next option is met or the list ends; an argument that is no option at all is
reported before a value still waiting.
-/
namespace EventTree.CommandLine

/-- What the arguments have said so far. -/
structure Draft where
  host : Option String := none
  tcpPort : Option Nat := none
  mountPoint : Option Path := none
  queryTimeout : Option Nat := none
  connectTimeout : Option Nat := none
  /-- The options given, those without a value included. -/
  given : List Flag := []
deriving DecidableEq, Repr

/-- An option whose value, if it has come already, waits to be judged. -/
structure Waiting where
  flag : Flag
  value : Option Bytes := none
deriving DecidableEq, Repr

/-- The digits of an integer of at most `limit`. Each digit is looked at before the
size of the number so far. -/
def readDigits (limit : Nat) (tooFar : IntegerFault) :
    (n : Nat) → List Char → Except IntegerFault Nat
  | n, [] => .ok n
  | n, c :: rest =>
    if c < '0' || '9' < c then .error .invalidDigit
    else
      let n := n * 10 + (c.toNat - '0'.toNat)
      if limit < n then .error tooFar else readDigits limit tooFar n rest

def readMagnitude (limit : Nat) (tooFar : IntegerFault) (cs : List Char) :
    Except IntegerFault Nat :=
  if cs.isEmpty then .error .invalidDigit else readDigits limit tooFar 0 cs

/-- An unsigned 64-bit integer; a plus sign is allowed. -/
def readUnsigned : List Char → Except IntegerFault Nat
  | [] => .error .empty
  | '+' :: rest => readMagnitude (0xFFFFFFFFFFFFFFFF) .tooLarge rest
  | cs => readDigits (0xFFFFFFFFFFFFFFFF) .tooLarge 0 cs

/-- A signed 64-bit integer. -/
def readSigned : List Char → Except IntegerFault Int
  | [] => .error .empty
  | '+' :: rest => (readMagnitude (0x7FFFFFFFFFFFFFFF) .tooLarge rest).map Int.ofNat
  | '-' :: rest => (readMagnitude 0x8000000000000000 .tooSmall rest).map fun n => -(n : Int)
  | cs => (readDigits (0x7FFFFFFFFFFFFFFF) .tooLarge 0 cs).map Int.ofNat

def maxPort : Nat := 65535

def readPort (cs : List Char) : Except IntegerFault Nat :=
  match readSigned cs with
  | .error f => .error f
  | .ok n => if 0 ≤ n ∧ n ≤ maxPort then .ok n.toNat else .error (.outOfRange n maxPort)

def readText (bytes : Bytes) : Except UsageFault String :=
  match Text.decode? bytes with
  | some s => .ok s
  | none => .error .notText

def readInteger (flag : Flag) (read : List Char → Except IntegerFault Nat) (bytes : Bytes) :
    Except UsageFault Nat :=
  match readText bytes with
  | .error f => .error f
  | .ok s => (read s.toList).mapError (.invalidInteger s flag)

/-- Takes an option with its value. -/
def Draft.set (d : Draft) (flag : Flag) (value : Bytes) : Except UsageFault Draft :=
  if d.given.contains flag then .error (.repeated flag)
  else
    let d := { d with given := flag :: d.given }
    match flag with
    | .host => (readText value).map fun s => { d with host := some s }
    | .tcpPort => (readInteger flag readPort value).map fun n => { d with tcpPort := some n }
    | .mountPoint =>
      if value.isEmpty then .error (.missingValue flag)
      else .ok { d with mountPoint := some ⟨value⟩ }
    | .queryTimeout =>
      (readInteger flag readUnsigned value).map fun n => { d with queryTimeout := some n }
    | .connectTimeout =>
      (readInteger flag readUnsigned value).map fun n => { d with connectTimeout := some n }
    | .debug | .strict | .allowOther | .help => .ok d

/-- Judges the value that waits, if any. -/
def Draft.settle (d : Draft) : Option Waiting → Except UsageFault Draft
  | none => .ok d
  | some ⟨flag, none⟩ => .error (.missingValue flag)
  | some ⟨flag, some value⟩ => d.set flag value

/-- Takes an option without a value. -/
def Draft.turnOn (d : Draft) (flag : Flag) : Except UsageFault Draft :=
  if d.given.contains flag then .error (.repeated flag) else .ok { d with given := flag :: d.given }

/-- What the arguments ask for. -/
inductive Request where
  | help
  | mount (settings : MountSettings)
deriving DecidableEq, Repr

/-- The request when the last argument has been read. -/
def Draft.finish (d : Draft) : Except UsageFault Request :=
  match d.mountPoint with
  | none => .error .missingRequired
  | some mountPoint =>
    let defaults : IndexAddress := {}
    .ok (.mount
      { mountPoint
        allowOther := d.given.contains .allowOther
        policy := if d.given.contains .strict then .strict else .lenient
        index :=
          { host := d.host.getD defaults.host
            tcpPort := d.tcpPort.getD defaults.tcpPort
            connectTimeoutSeconds := d.connectTimeout.getD defaults.connectTimeoutSeconds
            queryTimeoutSeconds := d.queryTimeout.getD defaults.queryTimeoutSeconds } })

def dash : UInt8 := 0x2D
def equalsSign : UInt8 := 0x3D

/-- The name of a long option and the value attached to it by an equals sign. -/
def splitLong (bytes : Bytes) : Bytes × Option Bytes :=
  match bytes.span (· != equalsSign) with
  | (name, []) => (name, none)
  | (name, _ :: value) => (name, some value)

/-- How one argument looks by itself. -/
inductive Argument where
  /-- Two dashes: no option comes after them. -/
  | endOfOptions
  | long (flag : Flag) (value : Option Bytes)
  | shortHelp
  /-- Looks like an option and is none. -/
  | unknown (shown : String)
  | plain
deriving DecidableEq, Repr

def longArgument (bytes : Bytes) : Argument :=
  let (name, value) := splitLong bytes
  match (Text.decode? name).bind Flag.ofName? with
  | some flag => .long flag value
  | none => .unknown ("--" ++ Text.decodeLossy name)

/-- The character that some bytes begin with, if they begin with one. -/
def firstChar? (bytes : Bytes) : Option String :=
  [1, 2, 3, 4].findSome? fun n => if n ≤ bytes.length then Text.decode? (bytes.take n) else none

/-- One-letter options stand behind a single dash; the first letter decides. -/
def shortArgument (bytes : Bytes) : Argument :=
  match firstChar? bytes with
  | some s => if s = "h" then .shortHelp else .unknown ("-" ++ s)
  | none => .unknown ("-" ++ Text.decodeLossy bytes)

def Argument.of : Bytes → Argument
  | first :: second :: rest =>
    if first = dash then
      if second = dash then
        if rest.isEmpty then .endOfOptions else longArgument rest
      else shortArgument (second :: rest)
    else .plain
  | _ => .plain

/-- Reads arguments after those that gave `d`, with an option that may still wait. -/
def readFrom (d : Draft) (waiting : Option Waiting) : List Bytes → Except UsageFault Request
  | [] =>
    match d.settle waiting with
    | .error f => .error f
    | .ok d => d.finish
  | arg :: rest =>
    match Argument.of arg with
    | .endOfOptions =>
      match rest with
      | [] =>
        match d.settle waiting with
        | .error f => .error f
        | .ok d => d.finish
      | plain :: _ => .error (.unexpectedArgument (Text.decodeLossy plain))
    | .unknown shown => .error (.unexpectedArgument shown)
    | .shortHelp =>
      match d.settle waiting with
      | .error f => .error f
      | .ok _ => .ok .help
    | .long flag value =>
      match flag.takesValue, value with
      | false, some value => .error (.unexpectedValue (Text.decodeLossy value) flag)
      | false, none =>
        match d.settle waiting with
        | .error f => .error f
        | .ok d =>
          if flag = .help then .ok .help
          else match d.turnOn flag with
            | .error f => .error f
            | .ok d => readFrom d none rest
      | true, none =>
        match d.settle waiting with
        | .error f => .error f
        | .ok d => readFrom d (some ⟨flag, none⟩) rest
      | true, some value =>
        match d.settle waiting with
        | .error f => .error f
        | .ok d =>
          match d.set flag value with
          | .error f => .error f
          | .ok d => readFrom d none rest
    | .plain =>
      match waiting with
      | some ⟨flag, none⟩ => readFrom d (some ⟨flag, some arg⟩) rest
      | _ => .error (.unexpectedArgument (Text.decodeLossy arg))

def readArguments (args : List Bytes) : Except UsageFault Request := readFrom {} none args

end EventTree.CommandLine
