import EventTree.Wire.Message
import EventTree.Wire.Primitive

/-!
# Reading messages

A message is read field by field into a value that starts out empty: of a field that
occurs once the last value stays, repeated fields collect, and a second query is
merged into the first. Fields of unknown tags are passed over.

A message inside another is read from the same input. Its values may therefore reach
past its stated end as far as the input goes; whether they did is checked between
two fields.
-/
namespace EventTree.Wire
open Number

/-- How deep messages and groups may be nested, counting the outermost message. -/
def depthLimit : Nat := 100

/-- Passes over groups, the innermost of which is first in `tags`, up to the end of
the outermost. Groups nest as far as `depth` allows; every round takes a key. -/
def skipGroups (depth : Nat) : (fuel : Nat) → (tags : List Nat) → Bytes → Except DecodeFault Bytes
  | _, [], bytes => .ok bytes
  | 0, _ :: _, _ => fail .invalidVarint
  | fuel + 1, tag :: tags, bytes => do
    let ((inner, wireType), rest) ← readKey bytes
    match wireType with
    | .endGroup =>
      if inner = tag then skipGroups depth fuel tags rest else fail .unexpectedEndGroup
    | _ =>
      if depth ≤ (tag :: tags).length then fail .tooDeep
      else match wireType with
        | .varint => skipGroups depth fuel (tag :: tags) (← readVarint rest).2
        | .fixed32 => skipGroups depth fuel (tag :: tags) (← readBytes 4 rest).2
        | .fixed64 => skipGroups depth fuel (tag :: tags) (← readBytes 8 rest).2
        | .delimited => skipGroups depth fuel (tag :: tags) (← readDelimited rest).2
        | .startGroup => skipGroups depth fuel (inner :: tag :: tags) rest
        | .endGroup => fail .unexpectedEndGroup

/-- Passes over the value of a field. -/
def skipField (depth : Nat) (tag : Nat) (wireType : WireType) (bytes : Bytes) :
    Except DecodeFault Bytes := do
  if depth = 0 then fail .tooDeep
  else match wireType with
    | .varint => return (← readVarint bytes).2
    | .fixed32 => return (← readBytes 4 bytes).2
    | .fixed64 => return (← readBytes 8 bytes).2
    | .delimited => return (← readDelimited bytes).2
    | .startGroup => skipGroups depth bytes.length [tag] bytes
    | .endGroup => fail .unexpectedEndGroup

/-- Reads fields into `m` until `stop` bytes are left. A field takes at least one
byte, so `fuel` is the number of bytes at hand. -/
def readFields (field : μ → Nat → WireType → Bytes → Except DecodeFault (μ × Bytes)) (stop : Nat) :
    (fuel : Nat) → μ → Bytes → Except DecodeFault (μ × Bytes)
  | fuel, m, bytes =>
    if bytes.length < stop then fail .overrun
    else if bytes.length = stop then .ok (m, bytes)
    else match fuel with
      | 0 => fail .overrun
      | fuel + 1 => do
        let ((tag, wireType), rest) ← readKey bytes
        let (m, rest) ← field m tag wireType rest
        readFields field stop fuel m rest

/-- The value of a field that must have a certain wire type. -/
def typed (expected actual : WireType) (r : Except DecodeFault α) : Except DecodeFault α :=
  if actual = expected then r else fail (.wrongWireType actual expected)

/-- A message inside another: its length, then its fields. -/
def readMessage (depth : Nat)
    (field : μ → Nat → WireType → Bytes → Except DecodeFault (μ × Bytes)) (m : μ) (bytes : Bytes) :
    Except DecodeFault (μ × Bytes) :=
  if depth = 0 then fail .tooDeep
  else do
    let (length, rest) ← readLength bytes
    readFields field (rest.length - length) rest.length m rest

def textField (name : String) (wireType : WireType) (bytes : Bytes) :
    Except DecodeFault (String × Bytes) :=
  inField name (typed .delimited wireType (readText bytes))

def varintField (name : String) (wireType : WireType) (bytes : Bytes) :
    Except DecodeFault (Nat × Bytes) :=
  inField name (typed .varint wireType (readVarint bytes))

def binary32Field (name : String) (wireType : WireType) (bytes : Bytes) :
    Except DecodeFault (Binary32 × Bytes) :=
  inField name (typed .fixed32 wireType
    ((readFixed 4 bytes).map fun (n, rest) => (⟨n.toUInt32⟩, rest)))

def binary64Field (name : String) (wireType : WireType) (bytes : Bytes) :
    Except DecodeFault (Binary64 × Bytes) :=
  inField name (typed .fixed64 wireType
    ((readFixed 8 bytes).map fun (n, rest) => (⟨n.toUInt64⟩, rest)))

def unknownField (depth : Nat) (m : μ) (tag : Nat) (wireType : WireType) (bytes : Bytes) :
    Except DecodeFault (μ × Bytes) :=
  (skipField depth tag wireType bytes).map (m, ·)

namespace Attribute

def field (depth : Nat) (m : Attribute) (tag : Nat) (wireType : WireType) (bytes : Bytes) :
    Except DecodeFault (Attribute × Bytes) := do
  match tag with
  | 1 =>
    let (s, rest) ← textField "Attribute.key" wireType bytes
    return ({ m with key := s }, rest)
  | 2 =>
    let (s, rest) ← textField "Attribute.value" wireType bytes
    return ({ m with value := some s }, rest)
  | _ => unknownField depth m tag wireType bytes

end Attribute

namespace SentEvent

def field (depth : Nat) (m : SentEvent) (tag : Nat) (wireType : WireType) (bytes : Bytes) :
    Except DecodeFault (SentEvent × Bytes) := do
  match tag with
  | 1 =>
    let (n, rest) ← varintField "RawEvent.time" wireType bytes
    return ({ m with time := some (int64OfBits n) }, rest)
  | 2 =>
    let (s, rest) ← textField "RawEvent.state" wireType bytes
    return ({ m with state := some s }, rest)
  | 3 =>
    let (s, rest) ← textField "RawEvent.service" wireType bytes
    return ({ m with service := some s }, rest)
  | 4 =>
    let (s, rest) ← textField "RawEvent.host" wireType bytes
    return ({ m with host := some s }, rest)
  | 5 =>
    let (s, rest) ← textField "RawEvent.description" wireType bytes
    return ({ m with description := some s }, rest)
  | 7 =>
    let (s, rest) ← textField "RawEvent.tags" wireType bytes
    return ({ m with tags := m.tags ++ [s] }, rest)
  | 8 =>
    let (x, rest) ← binary32Field "RawEvent.ttl" wireType bytes
    return ({ m with ttl := some x }, rest)
  | 9 =>
    let (a, rest) ← inField "RawEvent.attributes" (typed .delimited wireType
      (readMessage depth (Attribute.field (depth - 1)) {} bytes))
    return ({ m with attributes := m.attributes ++ [a] }, rest)
  | 10 =>
    let (n, rest) ← varintField "RawEvent.time_micros" wireType bytes
    return ({ m with timeMicros := some (int64OfBits n) }, rest)
  | 13 =>
    let (n, rest) ← varintField "RawEvent.metric_sint64" wireType bytes
    return ({ m with metricInt := some (unzigzag n) }, rest)
  | 14 =>
    let (x, rest) ← binary64Field "RawEvent.metric_d" wireType bytes
    return ({ m with metricDouble := some x }, rest)
  | 15 =>
    let (x, rest) ← binary32Field "RawEvent.metric_f" wireType bytes
    return ({ m with metricFloat := some x }, rest)
  | _ => unknownField depth m tag wireType bytes

end SentEvent

namespace Query

def field (depth : Nat) (m : Query) (tag : Nat) (wireType : WireType) (bytes : Bytes) :
    Except DecodeFault (Query × Bytes) := do
  match tag with
  | 1 =>
    let (s, rest) ← textField "Query.string" wireType bytes
    return ({ m with text := some s }, rest)
  | _ => unknownField depth m tag wireType bytes

end Query

namespace Message

def field (depth : Nat) (m : Message) (tag : Nat) (wireType : WireType) (bytes : Bytes) :
    Except DecodeFault (Message × Bytes) := do
  match tag with
  | 2 =>
    let (n, rest) ← varintField "Msg.ok" wireType bytes
    return ({ m with ok := some (n != 0) }, rest)
  | 3 =>
    let (s, rest) ← textField "Msg.error" wireType bytes
    return ({ m with error := some s }, rest)
  | 5 =>
    let (q, rest) ← inField "Msg.query" (typed .delimited wireType
      (readMessage depth (Query.field (depth - 1)) (m.query.getD {}) bytes))
    return ({ m with query := some q }, rest)
  | 6 =>
    let (e, rest) ← inField "Msg.events" (typed .delimited wireType
      (readMessage depth (SentEvent.field (depth - 1)) {} bytes))
    return ({ m with events := m.events ++ [e] }, rest)
  | _ => unknownField depth m tag wireType bytes

/-- Reads fields into a message until the input ends. -/
def merge (m : Message) (bytes : Bytes) : Except DecodeFault Message :=
  (readFields (field depthLimit) 0 bytes.length m bytes).map (·.1)

def decode (bytes : Bytes) : Except DecodeFault Message := merge {} bytes

end Message
end EventTree.Wire
