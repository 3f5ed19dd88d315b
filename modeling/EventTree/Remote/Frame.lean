import EventTree.Remote.Fault
import EventTree.Wire.Decode
import EventTree.Wire.Encode

/-!
# Frames

A message on a stream follows its length in four bytes, the highest first. A reader
takes the length, then as many bytes as it says and no more, so behind a whole frame
the stream stands at the beginning of the next.
-/
namespace EventTree
open Wire

def bigEndian32 (n : Nat) : Bytes := (littleEndian 4 n).reverse

def ofBigEndian (bytes : Bytes) : Nat := ofLittleEndian bytes.reverse

/-- The frame of a message, if its length can be written. -/
def Wire.Message.frame (m : Message) : Except ExchangeFault Bytes :=
  let body := m.encode
  if body.length < 0x100000000 then .ok (bigEndian32 body.length ++ body)
  else .error (.frameTooLarge body.length)

/-- The longest frame that is taken, unless another limit is given. -/
def defaultFrameLimit : Nat := 64 * 1024 * 1024

/-- Takes a number of bytes off a stream, or none if it ends before the last. -/
abbrev TakeBytes (σ : Type) := σ → (count : Nat) → Except NetworkFault (Option Bytes) × σ

/-- The next message of a stream whose frames are at most `limit` bytes long. -/
def takeMessage (limit : Nat) (take : TakeBytes σ) (stream : σ) :
    Except ExchangeFault Message × σ :=
  match take stream 4 with
  | (.error fault, stream) => (.error (.ofNetwork fault), stream)
  | (.ok none, stream) => (.error (.io "unexpected end of file"), stream)
  | (.ok (some head), stream) =>
    let length := ofBigEndian head
    if limit < length then (.error (.frameTooLarge length), stream)
    else match take stream length with
      | (.error fault, stream) => (.error (.ofNetwork fault), stream)
      | (.ok none, stream) => (.error (.io "early eof"), stream)
      | (.ok (some body), stream) => ((Message.decode body).mapError .decode, stream)

/-- Takes bytes off a stream that has ended. Too few of them are lost. -/
def takeRecorded : TakeBytes Bytes := fun bytes count =>
  if bytes.length < count then (.ok none, []) else (.ok (some (bytes.take count)), bytes.drop count)

/-- The next message of a stream that has ended, with the bytes behind it. -/
def readMessage (limit : Nat) (bytes : Bytes) : Except ExchangeFault Message × Bytes :=
  takeMessage limit takeRecorded bytes

/-- Messages up to the first that cannot be read, each with the bytes behind it. -/
def readMessagesIn (limit : Nat) :
    (fuel : Nat) → Bytes → List (Except ExchangeFault Message × Bytes)
  | 0, _ => []
  | fuel + 1, bytes =>
    match readMessage limit bytes with
    | (.ok m, rest) => (.ok m, rest) :: readMessagesIn limit fuel rest
    | (.error f, rest) => [(.error f, rest)]

/-- All messages of a stream that has ended; each takes at least four bytes. -/
def readMessages (limit : Nat) (bytes : Bytes) : List (Except ExchangeFault Message × Bytes) :=
  readMessagesIn limit (bytes.length + 1) bytes

end EventTree
