import EventTree.Text.Utf8

/-!
# Text without terminal controls

A terminal takes some of what is sent to it as commands: single controls, escape
sequences, control sequences, and control strings with all that is inside them.
`withoutControls` leaves these out of a text. White space is kept, also where it
interrupts a sequence; what follows is then shown up to the next control, and from
there on the sequence goes on.
-/
namespace EventTree.Text

/-- How far the sequence has come that a terminal is reading. -/
inductive SequenceState where
  /-- No sequence is open. -/
  | ground
  | escape
  | escapeIntermediate
  | controlSequence
  /-- A device control string begins with a sequence of its own. -/
  | deviceControl
  | deviceControlParameters
  | deviceControlIntermediate
  | systemCommand
  /-- Inside any other string, which a string terminator ends. -/
  | controlString
deriving DecidableEq, Repr

def isIntermediateByte (b : UInt8) : Bool := 0x20 ≤ b && b ≤ 0x2F
def isParameterByte (b : UInt8) : Bool := 0x30 ≤ b && b ≤ 0x3F
def isFinalByte (b : UInt8) : Bool := 0x40 ≤ b && b ≤ 0x7E

namespace SequenceState

/-- The state after an escape and one more byte. -/
def afterEscape (b : UInt8) : SequenceState :=
  if isIntermediateByte b then .escapeIntermediate
  else if b = 0x5B then .controlSequence
  else if b = 0x5D then .systemCommand
  else if b = 0x50 then .deviceControl
  else if b = 0x58 ∨ b = 0x5E ∨ b = 0x5F then .controlString
  else if isParameterByte b || isFinalByte b then .ground
  else .escape

/-- The state after a byte that is not shown. A byte without a meaning where it
stands is passed over. -/
def next (s : SequenceState) (b : UInt8) : SequenceState :=
  if b = 0x18 ∨ b = 0x1A then .ground
  else if b = 0x1B then .escape
  else match s with
    | .ground => .ground
    | .escape => afterEscape b
    | .escapeIntermediate => if isParameterByte b || isFinalByte b then .ground else s
    | .controlSequence => if isFinalByte b then .ground else s
    | .deviceControl =>
      if isFinalByte b then .controlString
      else if isIntermediateByte b then .deviceControlIntermediate
      else if isParameterByte b then .deviceControlParameters
      else s
    | .deviceControlParameters =>
      if isFinalByte b || (0x3C ≤ b && b ≤ 0x3F) then .controlString
      else if isIntermediateByte b then .deviceControlIntermediate
      else s
    | .deviceControlIntermediate =>
      if isFinalByte b || isParameterByte b then .controlString else s
    | .systemCommand => if b = 0x07 then .ground else s
    | .controlString => if b = 0x9C then .ground else s

/-- In a sequence proper, a control does what it does elsewhere; in a string, it is
part of the string. -/
def allowsControls : SequenceState → Bool
  | .ground | .escape | .escapeIntermediate | .controlSequence => true
  | _ => false

end SequenceState

/-- White space among the controls. -/
def isBlankControl (c : Char) : Bool := c == '\t' || c == '\n' || c == '\x0c' || c == '\r'

/-- Shown where no sequence is open. Only controls of one byte are taken as such. -/
def isVisible (c : Char) : Bool := isBlankControl c || (' ' ≤ c && c != '\x7f')

/-- A terminal between two characters. -/
structure Terminal where
  sequence : SequenceState := .ground
  /-- Whether the last character was shown. If so the open sequence, which white
  space has interrupted, waits. -/
  showing : Bool := true
deriving DecidableEq, Repr

namespace Terminal

def shows (t : Terminal) (c : Char) : Bool :=
  if t.showing || t.sequence == .ground then isVisible c
  else t.sequence.allowsControls && isBlankControl c

/-- The terminal after one more character. A character of several bytes that is shown
puts an end to a sequence that waits. -/
def step (t : Terminal) (c : Char) : Terminal :=
  if t.shows c then { sequence := if c.toNat < 0x80 then t.sequence else .ground, showing := true }
  else { sequence := (encode c.toString).foldl SequenceState.next t.sequence, showing := false }

/-- The characters that are shown. -/
def visible (t : Terminal) : List Char → List Char
  | [] => []
  | c :: rest =>
    let t := t.step c
    if t.showing then c :: t.visible rest else t.visible rest

end Terminal

def withoutControls (s : String) : String := .ofList (({} : Terminal).visible s.toList)

end EventTree.Text
