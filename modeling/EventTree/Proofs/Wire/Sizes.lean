import EventTree.Proofs.Wire.Primitive
import Mathlib.Algebra.Ring.Nat

/-!
# How long a written message is

The size of a message can be told from its fields before anything is written: a number
takes a byte for every seven bits, and a message inside another takes its own size and
that of the number for it. The lengths that are written in front of texts and messages
are these sizes.

As lengths are written in 64 bits, nothing is said of bytes that are longer.
-/
namespace EventTree.Wire
open Number

def varintSize (n : Nat) : Nat := n.log2 / 7 + 1

def keySize (tag : Nat) (w : WireType) : Nat := varintSize (tag * 8 + w.number)

def fieldSize {α : Type} (tag : Nat) (w : WireType) (valueSize : α → Nat) : Option α → Nat
  | some a => keySize tag w + valueSize a
  | none => 0

/-- The size of something with its length in front. -/
def enclosedSize (size : Nat) : Nat := varintSize size + size

def textSize (s : String) : Nat := enclosedSize s.utf8ByteSize

def Attribute.size (a : Attribute) : Nat :=
  fieldSize 1 .delimited textSize (some a.key) + fieldSize 2 .delimited textSize a.value

def SentEvent.size (e : SentEvent) : Nat :=
  fieldSize 1 .varint (fun n => varintSize (int64Bits n)) e.time +
    fieldSize 2 .delimited textSize e.state + fieldSize 3 .delimited textSize e.service +
    fieldSize 4 .delimited textSize e.host + fieldSize 5 .delimited textSize e.description +
    (e.tags.map fun s => fieldSize 7 .delimited textSize (some s)).sum +
    fieldSize 8 .fixed32 (fun _ => 4) e.ttl +
    (e.attributes.map fun a =>
      fieldSize 9 .delimited (fun a => enclosedSize (Attribute.size a)) (some a)).sum +
    fieldSize 10 .varint (fun n => varintSize (int64Bits n)) e.timeMicros +
    fieldSize 13 .varint (fun n => varintSize (zigzag n)) e.metricInt +
    fieldSize 14 .fixed64 (fun _ => 8) e.metricDouble +
    fieldSize 15 .fixed32 (fun _ => 4) e.metricFloat

def Query.size (q : Query) : Nat := fieldSize 1 .delimited textSize q.text

def Message.size (m : Message) : Nat :=
  fieldSize 2 .varint (fun _ => 1) m.ok + fieldSize 3 .delimited textSize m.error +
    fieldSize 5 .delimited (fun q => enclosedSize (Query.size q)) m.query +
    (m.events.map fun e =>
      fieldSize 6 .delimited (fun e => enclosedSize (SentEvent.size e)) (some e)).sum

/-! ## Numbers -/

theorem log2_div_128 {n : Nat} (h : 128 ≤ n) : n.log2 = (n / 128).log2 + 7 := by
  have hlow : 2 ^ (n / 128).log2 ≤ n / 128 := Nat.log2_self_le (by omega)
  have hhigh : n / 128 < 2 ^ ((n / 128).log2 + 1) := Nat.lt_log2_self
  rw [Nat.log2_eq_iff (by omega)]
  rw [Nat.pow_succ] at hhigh
  constructor
  · rw [Nat.pow_add]
    omega
  · rw [Nat.add_right_comm, Nat.pow_add, Nat.pow_succ]
    omega

theorem length_varintIn {room n : Nat} (h : n < 2 ^ (7 * room)) (hroom : room ≠ 0) :
    (varintIn room n).length = varintSize n := by
  induction room generalizing n with
  | zero => exact absurd rfl hroom
  | succ room ih =>
    unfold varintIn varintSize
    by_cases hlast : n < 128
    · have hbits : n.log2 < 7 := by
        rcases Nat.eq_zero_or_pos n with rfl | hpos
        · decide
        · exact (Nat.log2_lt (Nat.ne_of_gt hpos)).2 hlast
      rw [if_pos hlast, Nat.div_eq_of_lt hbits]
      rfl
    · have hrest : n / 128 < 2 ^ (7 * room) := by
        have hpow : 2 ^ (7 * (room + 1)) = 2 ^ (7 * room) * 128 := Nat.pow_add 2 (7 * room) 7
        omega
      have hmore : room ≠ 0 := by
        rintro rfl
        omega
      rw [if_neg hlast, List.length_cons, ih hrest hmore, varintSize,
        log2_div_128 (Nat.le_of_not_lt hlast), Nat.add_div_right _ (by decide)]

theorem length_varint {n : Nat} (h : n < 2 ^ 64) : (varint n).length = varintSize n :=
  length_varintIn (Nat.lt_trans h (by decide)) (by decide)

/-! ## Parts -/

/-- So many bytes are written, if their number can be written. -/
def Sized (part : Bytes) (size : Nat) : Prop := part.length < 2 ^ 64 → part.length = size

theorem Sized.append {part part' : Bytes} {size size' : Nat} (h : Sized part size)
    (h' : Sized part' size') : Sized (part ++ part') (size + size') := by
  intro hlength
  rw [List.length_append] at hlength ⊢
  rw [h (by omega), h' (by omega)]

theorem sized_varint {n : Nat} (h : n < 2 ^ 64) : Sized (varint n) (varintSize n) :=
  fun _ => length_varint h

theorem sized_littleEndian (count n : Nat) : Sized (littleEndian count n) count :=
  fun _ => length_littleEndian count n

theorem Sized.withLength {payload : Bytes} {size : Nat} (h : Sized payload size) :
    Sized (withLength payload) (enclosedSize size) := by
  intro hlength
  rw [length_withLength] at hlength ⊢
  have hpayload : payload.length < 2 ^ 64 := by omega
  rw [length_varint hpayload, h hpayload]
  rfl

theorem sized_textBytes (s : String) : Sized (textBytes s) (textSize s) :=
  Sized.withLength fun _ => Text.length_encode s

section
variable {α : Type} {value : α → Bytes} {valueSize : α → Nat} {tag : Nat} {w : WireType}

theorem sized_fieldOf (htag : tag < 2 ^ 29) (h : ∀ a, Sized (value a) (valueSize a))
    (o : Option α) : Sized (fieldOf tag w value o) (fieldSize tag w valueSize o) := by
  cases o with
  | none => exact fun _ => rfl
  | some a =>
    have hw := w.number_lt
    have hkey : Sized (key tag w) (keySize tag w) := sized_varint (by omega)
    exact hkey.append (h a)

theorem sized_flatMap (htag : tag < 2 ^ 29) (h : ∀ a, Sized (value a) (valueSize a))
    (as : List α) :
    Sized (as.flatMap fun a => fieldOf tag w value (some a))
      (as.map fun a => fieldSize tag w valueSize (some a)).sum := by
  induction as with
  | nil => exact fun _ => rfl
  | cons a as ih =>
    rw [List.flatMap_cons, List.map_cons, List.sum_cons]
    exact (sized_fieldOf htag h (some a)).append ih

end

/-! ## Messages -/

theorem Attribute.sized_encode (a : Attribute) : Sized a.encode a.size :=
  (sized_fieldOf (by decide) sized_textBytes _).append
    (sized_fieldOf (by decide) sized_textBytes _)

theorem SentEvent.sized_encode (e : SentEvent) : Sized e.encode e.size := by
  have hint : ∀ n, Sized (varint (int64Bits n)) (varintSize (int64Bits n)) :=
    fun n => sized_varint (int64Bits_lt n)
  have hzigzag : ∀ n, Sized (varint (zigzag n)) (varintSize (zigzag n)) :=
    fun n => sized_varint (zigzag_lt n)
  have hsingle : ∀ x : Binary32, Sized (littleEndian 4 x.bits.toNat) 4 :=
    fun x => sized_littleEndian 4 _
  have hdouble : ∀ x : Binary64, Sized (littleEndian 8 x.bits.toNat) 8 :=
    fun x => sized_littleEndian 8 _
  have hattribute : ∀ a : Attribute, Sized (withLength a.encode) (enclosedSize a.size) :=
    fun a => a.sized_encode.withLength
  unfold encode size
  refine Sized.append ?_ (sized_fieldOf (by decide) hsingle _)
  refine Sized.append ?_ (sized_fieldOf (by decide) hdouble _)
  refine Sized.append ?_ (sized_fieldOf (by decide) hzigzag _)
  refine Sized.append ?_ (sized_fieldOf (by decide) hint _)
  refine Sized.append ?_ (sized_flatMap (by decide) hattribute _)
  refine Sized.append ?_ (sized_fieldOf (by decide) hsingle _)
  refine Sized.append ?_ (sized_flatMap (by decide) sized_textBytes _)
  refine Sized.append ?_ (sized_fieldOf (by decide) sized_textBytes _)
  refine Sized.append ?_ (sized_fieldOf (by decide) sized_textBytes _)
  refine Sized.append ?_ (sized_fieldOf (by decide) sized_textBytes _)
  refine Sized.append ?_ (sized_fieldOf (by decide) sized_textBytes _)
  exact sized_fieldOf (by decide) hint _

theorem Query.sized_encode (q : Query) : Sized q.encode q.size :=
  sized_fieldOf (by decide) sized_textBytes _

theorem Message.sized_encode (m : Message) : Sized m.encode m.size := by
  have hbit : ∀ ok : Bool, Sized (varint (if ok then 1 else 0)) 1 := by
    intro ok
    cases ok <;> exact fun _ => rfl
  have hquery : ∀ q : Query, Sized (withLength q.encode) (enclosedSize q.size) :=
    fun q => q.sized_encode.withLength
  have hevent : ∀ e : SentEvent, Sized (withLength e.encode) (enclosedSize e.size) :=
    fun e => e.sized_encode.withLength
  unfold encode size
  refine Sized.append ?_ (sized_flatMap (by decide) hevent _)
  refine Sized.append ?_ (sized_fieldOf (by decide) hquery _)
  refine Sized.append ?_ (sized_fieldOf (by decide) sized_textBytes _)
  exact sized_fieldOf (by decide) hbit _

/-! ## Lengths in front -/

/-- In `whole` stands a key with `tag`, behind it the number `length`, and behind it
`body`, which is so long. -/
def Encloses (whole : Bytes) (tag length : Nat) (body : Bytes) : Prop :=
  body.length = length ∧ key tag .delimited ++ (varint length ++ body) <:+: whole

theorem Encloses.of_putMessage {α : Type} {whole : Bytes} {tag size : Nat} {body : α → Bytes}
    {a : α} (hsize : Sized (body a) size) (hwhole : whole.length < 2 ^ 64)
    (h : putMessage tag body (some a) <:+: whole) : Encloses whole tag size (body a) := by
  have hfield : putMessage tag body (some a) = key tag .delimited ++ withLength (body a) := rfl
  rw [hfield] at h
  have hlength := h.length_le
  rw [List.length_append, length_withLength] at hlength
  have hbody : (body a).length = size := hsize (by omega)
  refine ⟨hbody, ?_⟩
  rw [← hbody]
  exact h

theorem infix_flatMap {α : Type} {a : α} {as : List α} (h : a ∈ as) (f : α → Bytes) :
    f a <:+: as.flatMap f := by
  obtain ⟨before, after, rfl⟩ := List.append_of_mem h
  refine ⟨before.flatMap f, after.flatMap f, ?_⟩
  rw [List.flatMap_append, List.flatMap_cons, List.append_assoc]

theorem infix_append {part front : Bytes} (h : part <:+: front) (back : Bytes) :
    part <:+: front ++ back :=
  h.trans (List.prefix_append front back).isInfix

theorem SentEvent.encloses_attribute {e : SentEvent} (hlength : e.encode.length < 2 ^ 64)
    {a : Attribute} (ha : a ∈ e.attributes) : Encloses e.encode 9 a.size a.encode := by
  have hfields : putMessage 9 Attribute.encode (some a) <:+:
      e.attributes.flatMap fun a => putMessage 9 Attribute.encode (some a) :=
    infix_flatMap ha fun a => putMessage 9 Attribute.encode (some a)
  refine Encloses.of_putMessage a.sized_encode hlength ?_
  unfold encode
  refine infix_append (infix_append (infix_append (infix_append ?_ _) _) _) _
  exact hfields.trans (List.suffix_append _ _).isInfix

theorem Message.encloses_event {m : Message} (hlength : m.encode.length < 2 ^ 64)
    {e : SentEvent} (he : e ∈ m.events) : Encloses m.encode 6 e.size e.encode := by
  have hfields : putMessage 6 SentEvent.encode (some e) <:+:
      m.events.flatMap fun e => putMessage 6 SentEvent.encode (some e) :=
    infix_flatMap he fun e => putMessage 6 SentEvent.encode (some e)
  refine Encloses.of_putMessage e.sized_encode hlength ?_
  exact hfields.trans (List.suffix_append _ _).isInfix

theorem Message.encloses_query {m : Message} (hlength : m.encode.length < 2 ^ 64) {q : Query}
    (hq : m.query = some q) : Encloses m.encode 5 q.size q.encode := by
  refine Encloses.of_putMessage q.sized_encode hlength ?_
  rw [← hq]
  exact infix_append (List.suffix_append _ _).isInfix _

end EventTree.Wire
