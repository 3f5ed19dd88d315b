import EventTree.Text.Utf8

/-!
# Primitive parts of the wire format

Variable-length integers, field keys and values of fixed or stated length. A reader
takes them from the front of the bytes at hand and returns what is left; a writer
puts down the one shortest form.
-/
namespace EventTree.Wire

/-- How the value of a field is delimited. -/
inductive WireType where
  | varint
  | fixed64
  | delimited
  | startGroup
  | endGroup
  | fixed32
deriving DecidableEq, Repr

namespace WireType

def number : WireType → Nat
  | .varint => 0
  | .fixed64 => 1
  | .delimited => 2
  | .startGroup => 3
  | .endGroup => 4
  | .fixed32 => 5

def ofNumber? : Nat → Option WireType
  | 0 => some .varint
  | 1 => some .fixed64
  | 2 => some .delimited
  | 3 => some .startGroup
  | 4 => some .endGroup
  | 5 => some .fixed32
  | _ => none

def name : WireType → String
  | .varint => "Varint"
  | .fixed64 => "SixtyFourBit"
  | .delimited => "LengthDelimited"
  | .startGroup => "StartGroup"
  | .endGroup => "EndGroup"
  | .fixed32 => "ThirtyTwoBit"

end WireType

/-- What is wrong with the bytes of a message. -/
inductive DecodeCause where
  | invalidVarint
  | invalidKey (key : Nat)
  | invalidWireType (number : Nat)
  | invalidTag (tag : Nat)
  | wrongWireType (actual expected : WireType)
  /-- A value goes on past the end of the input. -/
  | underflow
  /-- A field goes on past the end of the message that it is in. -/
  | overrun
  | notText
  | unexpectedEndGroup
  | tooDeep
deriving DecidableEq, Repr

/-- A cause and the declared fields that were being read, innermost first. -/
structure DecodeFault where
  cause : DecodeCause
  fields : List String := []
deriving DecidableEq, Repr

def DecodeCause.message : DecodeCause → String
  | .invalidVarint => "invalid varint"
  | .invalidKey key => "invalid key value: " ++ toString key
  | .invalidWireType number => "invalid wire type value: " ++ toString number
  | .invalidTag tag => "invalid tag value: " ++ toString tag
  | .wrongWireType actual expected =>
    "invalid wire type: " ++ actual.name ++ " (expected " ++ expected.name ++ ")"
  | .underflow => "buffer underflow"
  | .overrun => "delimited length exceeded"
  | .notText => "invalid string value: data is not UTF-8 encoded"
  | .unexpectedEndGroup => "unexpected end group tag"
  | .tooDeep => "recursion limit reached"

def DecodeFault.message (f : DecodeFault) : String :=
  "failed to decode Protobuf message: " ++
    String.join (f.fields.map (· ++ ": ")) ++ f.cause.message

def fail (cause : DecodeCause) : Except DecodeFault α := .error { cause }

/-- Marks a fault as found while a declared field was read. -/
def inField (field : String) (r : Except DecodeFault α) : Except DecodeFault α :=
  r.mapError fun f => { f with fields := f.fields ++ [field] }

/-! ## Writing -/

/-- Seven bits a byte, the low ones first, and a mark on every byte but the last. -/
def varintIn : (room : Nat) → (n : Nat) → Bytes
  | 0, _ => []
  | room + 1, n =>
    if n < 128 then [n.toUInt8] else (n % 128 + 128).toUInt8 :: varintIn room (n / 128)

/-- Ten bytes hold any number of 64 bits. -/
def varint (n : Nat) : Bytes := varintIn 10 n

def key (tag : Nat) (wireType : WireType) : Bytes := varint (tag * 8 + wireType.number)

/-- The low `count` bytes of `n`, lowest first. -/
def littleEndian : (count : Nat) → (n : Nat) → Bytes
  | 0, _ => []
  | count + 1, n => (n % 256).toUInt8 :: littleEndian count (n / 256)

def withLength (payload : Bytes) : Bytes := varint payload.length ++ payload

/-! ## Reading -/

/-- The value of a variable-length integer of which `room` bytes may still come. The
tenth byte of a whole one holds a single bit. -/
def readVarintIn : (room : Nat) → Bytes → Option (Nat × Bytes)
  | 0, _ => none
  | _ + 1, [] => none
  | room + 1, b :: rest =>
    if b < 128 then
      if room == 0 && 2 ≤ b then none else some (b.toNat, rest)
    else match readVarintIn room rest with
      | none => none
      | some (n, rest) => some (b.toNat - 128 + 128 * n, rest)

def readVarint (bytes : Bytes) : Except DecodeFault (Nat × Bytes) :=
  match readVarintIn 10 bytes with
  | some r => .ok r
  | none => fail .invalidVarint

/-- Tag and wire type in front of a field. -/
def readKey (bytes : Bytes) : Except DecodeFault ((Nat × WireType) × Bytes) :=
  match readVarint bytes with
  | .error f => .error f
  | .ok (key, rest) =>
    if 0x100000000 ≤ key then fail (.invalidKey key)
    else match WireType.ofNumber? (key % 8) with
      | none => fail (.invalidWireType (key % 8))
      | some wireType =>
        if key / 8 = 0 then fail (.invalidTag 0) else .ok ((key / 8, wireType), rest)

/-- The next `count` bytes. -/
def readBytes (count : Nat) (bytes : Bytes) : Except DecodeFault (Bytes × Bytes) :=
  if bytes.length < count then fail .underflow else .ok (bytes.splitAt count)

def ofLittleEndian : Bytes → Nat
  | [] => 0
  | b :: rest => b.toNat + 256 * ofLittleEndian rest

def readFixed (count : Nat) (bytes : Bytes) : Except DecodeFault (Nat × Bytes) :=
  (readBytes count bytes).map fun (taken, rest) => (ofLittleEndian taken, rest)

/-- A length, checked against what is left of the whole input. -/
def readLength (bytes : Bytes) : Except DecodeFault (Nat × Bytes) :=
  match readVarint bytes with
  | .error f => .error f
  | .ok (length, rest) => if rest.length < length then fail .underflow else .ok (length, rest)

def readDelimited (bytes : Bytes) : Except DecodeFault (Bytes × Bytes) :=
  match readLength bytes with
  | .error f => .error f
  | .ok (length, rest) => .ok (rest.splitAt length)

def readText (bytes : Bytes) : Except DecodeFault (String × Bytes) :=
  match readDelimited bytes with
  | .error f => .error f
  | .ok (payload, rest) =>
    match Text.decode? payload with
    | some s => .ok (s, rest)
    | none => fail .notText

/-! ## Signed integers -/

/-- A signed integer in two's complement. -/
def int64Bits (n : Int64) : Nat := n.toUInt64.toNat

def int64OfBits (n : Nat) : Int64 := n.toUInt64.toInt64

/-- A signed integer folded so that small magnitudes have small codes: 0, -1, 1, -2, … -/
def zigzag (n : Int64) : Nat :=
  let i := n.toInt
  if 0 ≤ i then 2 * i.toNat else 2 * i.natAbs - 1

def unzigzag (n : Nat) : Int64 :=
  if n % 2 = 0 then Int64.ofInt (n / 2 : Nat) else Int64.ofInt (-((n / 2 : Nat) + 1 : Int))

end EventTree.Wire
