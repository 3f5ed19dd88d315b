import EventTree.Wire.Message
import EventTree.Wire.Primitive

/-!
# Writing messages

The fields that are present, in ascending order of their tags. The key of an
attribute is written even if it is empty.
-/
namespace EventTree.Wire
open Number

def fieldOf (tag : Nat) (wireType : WireType) (value : α → Bytes) : Option α → Bytes
  | some a => key tag wireType ++ value a
  | none => []

def textBytes (s : String) : Bytes := withLength (Text.encode s)

def putText (tag : Nat) (s : Option String) : Bytes := fieldOf tag .delimited textBytes s

def putInt64 (tag : Nat) (n : Option Int64) : Bytes :=
  fieldOf tag .varint (fun n => varint (int64Bits n)) n

def putZigzag (tag : Nat) (n : Option Int64) : Bytes :=
  fieldOf tag .varint (fun n => varint (zigzag n)) n

def putBinary32 (tag : Nat) (x : Option Binary32) : Bytes :=
  fieldOf tag .fixed32 (fun x => littleEndian 4 x.bits.toNat) x

def putBinary64 (tag : Nat) (x : Option Binary64) : Bytes :=
  fieldOf tag .fixed64 (fun x => littleEndian 8 x.bits.toNat) x

def putMessage (tag : Nat) (body : α → Bytes) (m : Option α) : Bytes :=
  fieldOf tag .delimited (fun m => withLength (body m)) m

def Attribute.encode (a : Attribute) : Bytes := putText 1 (some a.key) ++ putText 2 a.value

def SentEvent.encode (e : SentEvent) : Bytes :=
  putInt64 1 e.time ++ putText 2 e.state ++ putText 3 e.service ++ putText 4 e.host ++
    putText 5 e.description ++ e.tags.flatMap (fun s => putText 7 (some s)) ++
    putBinary32 8 e.ttl ++ e.attributes.flatMap (fun a => putMessage 9 Attribute.encode (some a)) ++
    putInt64 10 e.timeMicros ++ putZigzag 13 e.metricInt ++ putBinary64 14 e.metricDouble ++
    putBinary32 15 e.metricFloat

def Query.encode (q : Query) : Bytes := putText 1 q.text

def Message.encode (m : Message) : Bytes :=
  fieldOf 2 .varint (fun ok => varint (if ok then 1 else 0)) m.ok ++ putText 3 m.error ++
    putMessage 5 Query.encode m.query ++
    m.events.flatMap (fun e => putMessage 6 SentEvent.encode (some e))

end EventTree.Wire
